import Hvnetpp.Reactor.Inventory

namespace Hvnetpp.Ledger

open Machine Server Tcp Reactor

variable {s t : State} {w : World} {fd : Nat}

theorem destroyElsewhere_conns {owner id : Nat} {server : TcpServer Nat} {d : TcpConnection}
    (present : (destroyElsewhere w owner server).conns id = some d) :
    ∃ conn, w.conns id = some conn ∧
      (id ∈ server.connections.entries.map Sigma.snd ∧ d = clearCallback conn ∨
        id ∉ server.connections.entries.map Sigma.snd ∧ d = conn) := by
  simp only [destroyElsewhere, World.enqueue] at present
  split at present
  · rename_i member
    obtain ⟨conn, found, rfl⟩ := Option.map_eq_some_iff.mp present
    exact ⟨conn, found, .inl ⟨member, rfl⟩⟩
  · rename_i other
    exact ⟨d, present, .inr ⟨other, rfl⟩⟩

/-- Its functors keep track of the connections that the destroyed server had. -/
theorem destroyElsewhere_accounted {owner : Nat} {server : TcpServer Nat} (accounted : Accounted w)
    (known : w.servers owner = some server) : Accounted (destroyElsewhere w owner server) := by
  refine { bound := ?_, fresh := ?_, sound := ?_, retired := ?_, ended := ?_, names := ?_, due := ?_ }
  · intro lister new
    by_cases same : lister = owner
    · rw [same]
      exact Function.update_self ..
    · exact (Function.update_of_ne same ..).trans (accounted.bound lister new)
  · intro id new
    simp only [destroyElsewhere, World.enqueue, accounted.fresh id new, Option.map_none, ite_self]
  · intro id d present
    obtain ⟨conn, found, ⟨_, rfl⟩ | ⟨_, rfl⟩⟩ := destroyElsewhere_conns present
    · exact ⟨(accounted.sound id conn found).agrees, (accounted.sound id conn found).quiet⟩
    · exact accounted.sound id d found
  · intro id d present
    obtain ⟨conn, found, ⟨_, rfl⟩ | ⟨_, rfl⟩⟩ := destroyElsewhere_conns present
    · exact fun closed => accounted.retired id conn found closed
    · exact accounted.retired id d found
  · intro id ends
    obtain ⟨less, off⟩ := accounted.ended id ends
    refine ⟨less, ?_⟩
    intro d present
    obtain ⟨conn, found, ⟨_, rfl⟩ | ⟨_, rfl⟩⟩ := destroyElsewhere_conns present
    · exact off conn found
    · exact off d found
  · intro lister first second c e presentC presentE ownC ownE same
    obtain ⟨before, foundC, ⟨_, rfl⟩ | ⟨_, rfl⟩⟩ := destroyElsewhere_conns presentC
    · cases ownC
    · obtain ⟨before, foundE, ⟨_, rfl⟩ | ⟨_, rfl⟩⟩ := destroyElsewhere_conns presentE
      · cases ownE
      · exact accounted.names lister first second c e foundC foundE ownC ownE same
  · intro id d present opened
    obtain ⟨conn, found, ⟨member, rfl⟩ | ⟨other, rfl⟩⟩ := destroyElsewhere_conns present
    · exact .inr (.inr (.inl (List.mem_append_right _ (List.mem_map_of_mem member))))
    · rcases accounted.due id d found opened with ⟨lister, before, own, knownBefore, listed⟩ | tracked
      · have differs : lister ≠ owner := by
          rintro rfl
          cases known.symm.trans knownBefore
          exact other ((mem_values server).mpr ⟨d.name, listed⟩)
        exact .inl ⟨lister, before, own, (Function.update_of_ne differs ..).trans knownBefore, listed⟩
      · have queued := (Still.enqueue w ((server.connections.entries.map Sigma.snd).map .connectDestroyed)).tracked id
          (Option.some_ne_none id).symm tracked
        exact .inr queued

theorem destroyElsewhere_descriptor (w : World) (owner : Nat) (server : TcpServer Nat) (id : Nat) :
    (destroyElsewhere w owner server).descriptor id = w.descriptor id := by
  simp only [World.descriptor, destroyElsewhere, World.enqueue]
  split
  · cases w.conns id <;> rfl
  · rfl

/-- The server is gone, and only its acceptor may have lost its last holder. -/
theorem anchored_of_destroyed {moved : World} {server : Nat}
    (servers : moved.servers = Function.update s.world.servers server none)
    (stack : ∀ other, .accepting other ∈ s.world.stack → .accepting other ∈ moved.stack) :
    ∀ other, some server ≠ some other → s.anchored other = true → (s.settle moved).anchored other = true := by
  intro other differs
  refine anchored_mono ?_ (stack other) id
  intro alive
  show (moved.servers other).isSome = true
  rw [servers, Function.update_of_ne fun same => differs (congrArg some same.symm)]
  exact alive

theorem Inventory.destroy {server : Nat} {found : TcpServer Nat} (inventory : Inventory none empty s)
    (known : s.world.servers server = some found) :
    Inventory none empty ((s.settle (s.world.destroyServer server found)).releaseAcceptor server true) := by
  obtain ⟨conns, nextConn, nextServer, servers, stack⟩ := destroyServer_frame s.world server found
  have settled : Inventory (some server) empty (s.settle (s.world.destroyServer server found)) := by
    apply inventory.settle_same (inventory.accounted.destroyServer known) nextConn nextServer
    · intro id
      unfold World.descriptor
      rw [conns]
    · apply anchored_of_destroyed servers
      intro other reading
      rw [stack]
      exact List.mem_cons_of_mem _ reading
  exact settled.releaseAcceptor true

theorem Inventory.destroyElsewhere {server : Nat} {found : TcpServer Nat} (inventory : Inventory none empty s)
    (known : s.world.servers server = some found) :
    Inventory none empty
      ((s.settle (Ledger.destroyElsewhere s.world server found)).releaseAcceptor server false) := by
  have settled : Inventory (some server) empty (s.settle (Ledger.destroyElsewhere s.world server found)) :=
    inventory.settle_same (destroyElsewhere_accounted inventory.accounted known) rfl rfl
      (destroyElsewhere_descriptor s.world server found) (anchored_of_destroyed rfl fun _ reading => reading)
  exact settled.releaseAcceptor false

/-- The new connection holds its descriptor. -/
theorem newConnection_holders {server sockfd : Nat} {found : TcpServer Nat}
    (known : w.servers server = some found) (nextConn : (w.newConnection server sockfd).nextConn = w.nextConn + 1)
    (fd : Nat) : connHolders w fd + (if fd = sockfd then 1 else 0) =
      connHolders (w.newConnection server sockfd) fd + closed w (w.newConnection server sockfd) fd := by
  have same : ∀ id < w.nextConn, (w.newConnection server sockfd).descriptor id = w.descriptor id := by
    intro id less
    rw [newConnection_descriptor known, if_neg (Nat.ne_of_lt less)]
  have none : closed w (w.newConnection server sockfd) fd = 0 := by
    apply Finset.sum_eq_zero
    intro id inside
    apply if_neg
    intro both
    rw [same id (Finset.mem_range.mp inside), both.1] at both
    cases both.2
  have before : ∑ id ∈ Finset.range w.nextConn, held ((w.newConnection server sockfd).descriptor id) fd =
      connHolders w fd :=
    Finset.sum_congr rfl fun id inside => by rw [same id (Finset.mem_range.mp inside)]
  have own : held ((w.newConnection server sockfd).descriptor w.nextConn) fd = if fd = sockfd then 1 else 0 := by
    rw [newConnection_descriptor known, if_pos rfl]
    simp only [held, Option.some.injEq, eq_comm]
  have after : connHolders (w.newConnection server sockfd) fd = connHolders w fd + if fd = sockfd then 1 else 0 := by
    rw [connHolders, nextConn, Finset.sum_range_succ, before, own]
  rw [none, after, Nat.add_zero]

/-- A connection has the new descriptor, or it is closed because the server is gone. -/
theorem Inventory.newConnection {server : Nat} (inventory : Inventory none empty s)
    (unused : Unused s.world server) : Inventory none empty (s.newConnection server) := by
  unfold State.newConnection
  dsimp only
  split
  · rename_i alive
    obtain ⟨found, known⟩ := Option.isSome_iff_exists.mp alive
    have opened : Inventory none (fun fd => if fd = s.descriptors.obtained then 1 else 0)
        { s with descriptors := s.descriptors.acquire } :=
      { inventory with balanced := inventory.balanced.acquire fun _ => rfl }
    have entered : s.world.newConnection server s.descriptors.obtained =
        (s.world.entered server s.descriptors.obtained found).callback s.world.nextConn .connected := by
      unfold World.newConnection
      rw [known]
      rfl
    apply opened.settle (inventory.accounted.newConnection known unused _)
    · rw [entered]
      rfl
    · exact newConnection_holders known (by rw [entered]; rfl)
    · intro id
      by_cases new : id = s.world.nextConn
      · refine .inr fun conn before => ?_
        rw [new, inventory.accounted.fresh _ (Nat.le_refl _)] at before
        cases before
      · rw [newConnection_descriptor known, if_neg new]
        exact .inl rfl
    · intro other _
      rw [entered]
      refine anchored_mono ?_ (List.mem_cons_of_mem _) id
      intro lives
      by_cases same : other = server
      · rw [same]
        exact Option.isSome_of_eq_some (Function.update_self ..)
      · exact (congrArg Option.isSome (Function.update_of_ne same ..)).trans lives
  · exact { inventory with balanced := inventory.balanced.discard }

theorem Inventory.createServer (inventory : Inventory none empty s) (name : Bytes) (opened : Bool) :
    Inventory none empty (s.createServer name opened) := by
  refine { inventory with
    accounted := inventory.accounted.createServer name, balanced := ?_, known := ?_, anchored := ?_ }
  · apply (Acceptor.create_balanced inventory.balanced opened).congr
    intro fd
    have others : ∑ server ∈ Finset.range s.world.nextServer, heldBy (Function.update s.acceptors s.world.nextServer
        (some (Acceptor.create s.descriptors opened).1) server) fd = acceptorHolders s fd := by
      apply Finset.sum_congr rfl
      intro server inside
      rw [Function.update_of_ne (Nat.ne_of_lt (Finset.mem_range.mp inside))]
    have acceptors : acceptorHolders (s.createServer name opened) fd =
        acceptorHolders s fd + (Acceptor.create s.descriptors opened).1.held fd := by
      unfold acceptorHolders
      show ∑ server ∈ Finset.range (s.world.nextServer + 1), heldBy (Function.update s.acceptors s.world.nextServer
        (some (Acceptor.create s.descriptors opened).1) server) fd = _
      rw [Finset.sum_range_succ, others, Function.update_self]
      rfl
    show connHolders s.world fd + acceptorHolders (s.createServer name opened) fd + jobHolders s.jobs fd + 0 = _
    rw [acceptors, State.holders, empty]
    omega
  · intro server acceptor present
    show server < s.world.nextServer + 1 ∧ acceptor.Shaped
    rcases update_acceptors present with ⟨rfl, new⟩ | ⟨_, old⟩
    · cases new
      exact ⟨Nat.lt_succ_self _, Acceptor.create_shaped s.descriptors opened⟩
    · obtain ⟨inside, shaped⟩ := inventory.known server acceptor old
      exact ⟨Nat.lt_succ_of_lt inside, shaped⟩
  · intro server present _
    obtain ⟨acceptor, present⟩ := Option.isSome_iff_exists.mp present
    rcases update_acceptors present with ⟨rfl, _⟩ | ⟨differs, old⟩
    · exact anchored_iff.mpr (.inl (Option.isSome_of_eq_some (Function.update_self ..)))
    · have before := inventory.anchored server (Option.isSome_of_eq_some old) (Option.some_ne_none server).symm
      refine anchored_mono (s := s) ?_ id id before
      exact (congrArg Option.isSome (Function.update_of_ne differs ..)).trans

/-- The server whose acceptor a functor holds. -/
def Job.server : Job → Option Nat
  | .start server => some server
  | .cleanup _ _ _ | .keep _ => none

/-- A functor is taken out, with what it holds. -/
theorem Inventory.take {index : Nat} {job : Job} (inventory : Inventory none empty s)
    (found : s.jobs[index]? = some job) :
    Inventory job.server job.held { s with jobs := s.jobs.eraseIdx index } := by
  obtain ⟨inside, here⟩ := List.getElem?_eq_some_iff.mp found
  have split : (job :: s.jobs.eraseIdx index).Perm s.jobs := here ▸ List.getElem_cons_eraseIdx_perm inside
  have before : ∀ other, other ∈ s.jobs.eraseIdx index → other ∈ s.jobs :=
    fun other member => split.mem_iff.mp (List.mem_cons_of_mem _ member)
  refine { inventory with balanced := ?_, anchored := ?_, cleanups := ?_, kept := ?_ }
  · apply inventory.balanced.congr
    intro fd
    have jobs : jobHolders s.jobs fd = job.held fd + jobHolders (s.jobs.eraseIdx index) fd :=
      (split.map (Job.held fd)).sum_eq.symm.trans List.sum_cons
    show connHolders s.world fd + acceptorHolders s fd + jobHolders (s.jobs.eraseIdx index) fd + job.held fd = _
    rw [State.holders, jobs, empty]
    omega
  · intro server present different
    have anchored := inventory.anchored server present (Option.some_ne_none server).symm
    refine anchored_mono (s := s) id id ?_ anchored
    intro starting
    rcases List.mem_cons.mp (split.mem_iff.mpr starting) with same | waits
    · subst same
      exact absurd rfl different
    · exact waits
  · exact fun channel socket idle member => inventory.cleanups channel socket idle (before _ member)
  · exact fun channel member => inventory.kept channel (before _ member)

theorem Inventory.run {index : Nat} {job : Job} (inventory : Inventory none empty s)
    (found : s.jobs[index]? = some job) (result : ListenResult) :
    Inventory none empty ({ s with jobs := s.jobs.eraseIdx index }.run result job) := by
  have taken := inventory.take found
  cases job with
  | start server =>
    unfold State.run
    dsimp only
    split
    · exact (Inventory.listen taken server result).releaseAcceptor true
    · exact Inventory.releaseAcceptor taken true
  | cleanup acceptChannel acceptSocket idleFd =>
    exact Inventory.cleanup taken (inventory.cleanups _ _ _ (List.mem_of_getElem? found))
  | keep acceptChannel => exact taken

theorem Inventory.startElsewhere (inventory : Inventory none empty s) (server : Nat) :
    Inventory none empty { s with jobs := s.jobs ++ [.start server] } := by
  apply inventory.append
  · exact fun _ => rfl
  · intro channel socket idle member
    cases List.mem_singleton.mp member
  · intro channel member
    cases List.mem_singleton.mp member

theorem Inventory.leaveRead {server : Nat} {below : List Frame} (inventory : Inventory none empty s)
    (stack : s.world.stack = .accepting server :: below) : Inventory none empty (s.leaveRead server) := by
  have settled : Inventory (some server) empty (s.settle s.world.pop) := by
    apply inventory.settle_same (inventory.accounted.leaveRead stack) rfl rfl fun _ => rfl
    intro other differs
    refine anchored_mono id ?_ id
    intro reading
    show _ ∈ s.world.stack.tail
    rw [stack] at reading ⊢
    rcases List.mem_cons.mp reading with top | lower
    · cases top
      exact absurd rfl differs
    · exact lower
  exact settled.releaseAcceptor true

theorem onAcceptor_world (s : State) (server : Nat) (operation : Acceptor → Descriptors → Acceptor × Descriptors) :
    (s.onAcceptor server operation).world = s.world := by
  unfold State.onAcceptor
  split <;> rfl

theorem Inventory.handleRead {server : Nat} {below : List Frame} (inventory : Inventory none empty s)
    (stack : s.world.stack = .accepting server :: below) {result : AcceptResult}
    (unused : result = .connection → Unused s.world server) : Inventory none empty (s.handleRead server result) := by
  cases result with
  | connection => exact inventory.newConnection (unused rfl)
  | again => exact inventory.leaveRead stack
  | failed => exact inventory.leaveRead stack
  | emfile accepted reopened =>
    have shed := inventory.onAcceptor
      (fun _ _ _ balanced shaped => Acceptor.shed_balanced balanced shaped accepted reopened) server
    exact shed.leaveRead ((congrArg World.stack (onAcceptor_world ..)).trans stack)

/-- Names of connections are not used twice. -/
def Distinct (s : State) : Action → Prop
  | .accept .connection => ∀ server ∈ s.world.accepting, Unused s.world server
  | .accept .again | .accept (.emfile _ _) | .accept .failed | .reactor _ | .createServer _ _ | .start _ _
  | .startElsewhere _ | .readable _ | .destroy _ | .destroyElsewhere _ | .run _ _ => True

instance (s : State) (action : Action) : Decidable (Distinct s action) :=
  match action with
  | .accept .connection => inferInstanceAs (Decidable (∀ server ∈ s.world.accepting, Unused s.world server))
  | .accept .again | .accept (.emfile _ _) | .accept .failed | .reactor _ | .createServer _ _ | .start _ _
  | .startElsewhere _ | .readable _ | .destroy _ | .destroyElsewhere _ | .run _ _ => isTrue trivial

theorem Inventory.step (inventory : Inventory none empty s) {action : Action} (distinct : Distinct s action)
    (taken : Ledger.step s action = some t) : Inventory none empty t := by
  cases action <;> simp only [Ledger.step] at taken
  case reactor action =>
    split at taken
    · rename_i plain
      obtain ⟨moved, move, rfl⟩ := Option.map_eq_some_iff.mp taken
      exact inventory.reactor (inventory.accounted.move plain move)
    · cases taken
  case createServer name opened =>
    cases taken
    exact inventory.createServer name opened
  case start server result =>
    split at taken
    · split at taken
      · cases taken
        exact inventory.listen server result
      · cases taken
    · cases taken
  case startElsewhere server =>
    split at taken
    · cases taken
      exact inventory.startElsewhere server
    · cases taken
  case readable server =>
    split at taken
    · cases taken
      exact inventory.reactor
        ((Still.push s.world (.accepting server) fun _ none => nomatch none).sheds inventory.accounted)
    · cases taken
  case accept result =>
    split at taken
    · rename_i server below stack
      cases taken
      apply inventory.handleRead stack
      rintro rfl
      exact distinct server (by rw [World.accepting, stack]; rfl)
    · cases taken
  case destroy server =>
    split at taken
    · obtain ⟨found, known, rfl⟩ := Option.map_eq_some_iff.mp taken
      exact inventory.destroy known
    · cases taken
  case destroyElsewhere server =>
    obtain ⟨found, known, rfl⟩ := Option.map_eq_some_iff.mp taken
    exact inventory.destroyElsewhere known
  case run index result =>
    split at taken
    · obtain ⟨job, found, rfl⟩ := Option.map_eq_some_iff.mp taken
      exact inventory.run found result
    · cases taken

/-- A connection, an acceptor or a cleanup that waits has the descriptor. -/
def Held (s : State) (fd : Nat) : Prop :=
  (∃ id, s.world.descriptor id = some fd) ∨ (∃ server acceptor, s.acceptors server = some acceptor ∧ acceptor.Has fd) ∨
    ∃ channel acceptSocket idleFd, .cleanup channel acceptSocket idleFd ∈ s.jobs ∧
      (acceptSocket = some fd ∨ idleFd = some fd)

/-- The server exists, and its acceptor or one of its connections has the descriptor. -/
def Serves (s : State) (server fd : Nat) : Prop :=
  ∃ found, s.world.servers server = some found ∧
    ((∃ acceptor, s.acceptors server = some acceptor ∧ acceptor.Has fd) ∨
      ∃ id ∈ found.connections.entries.map Sigma.snd, s.world.descriptor id = some fd)

/-- Some channel that exists is in `channels_` or in the epoll set, while its owner has this descriptor for it. -/
def Registered (s : State) (descriptor : Option Nat) : Prop :=
  (∃ id conn, s.world.conns id = some conn ∧ conn.channel.registered = true ∧ descriptor = conn.descriptor) ∨
  (∃ server acceptor channel, s.acceptors server = some acceptor ∧ acceptor.acceptChannel = some channel ∧
    channel.registered = true ∧ descriptor = acceptor.acceptSocket) ∨
  (∃ channel acceptSocket idleFd, .cleanup (some channel) acceptSocket idleFd ∈ s.jobs ∧
    channel.registered = true ∧ descriptor = acceptSocket) ∨
  ∃ channel, .keep channel ∈ s.jobs ∧ channel.registered = true ∧ descriptor = none

theorem connHolders_pos (accounted : Accounted w) : 0 < connHolders w fd ↔ ∃ id, w.descriptor id = some fd := by
  rw [connHolders, Finset.sum_pos_iff]
  constructor
  · rintro ⟨id, _, holds⟩
    exact ⟨id, held_pos.mp holds⟩
  · rintro ⟨id, holds⟩
    obtain ⟨conn, found, _⟩ := Option.bind_eq_some_iff.mp holds
    exact ⟨id, Finset.mem_range.mpr (accounted.lt_next found), held_pos.mpr holds⟩

theorem Inventory.acceptorHolders_pos {except : Option Nat} {hand : Nat → Nat} (inventory : Inventory except hand s) :
    0 < acceptorHolders s fd ↔ ∃ server acceptor, s.acceptors server = some acceptor ∧ acceptor.Has fd := by
  rw [acceptorHolders, Finset.sum_pos_iff]
  constructor
  · rintro ⟨server, _, holds⟩
    cases found : s.acceptors server with
    | none =>
      rw [found] at holds
      exact absurd holds (Nat.lt_irrefl 0)
    | some acceptor =>
      rw [found] at holds
      exact ⟨server, acceptor, found, Acceptor.held_pos.mp holds⟩
  · rintro ⟨server, acceptor, found, holds⟩
    refine ⟨server, Finset.mem_range.mpr (inventory.known server acceptor found).1, ?_⟩
    rw [found]
    exact Acceptor.held_pos.mpr holds

theorem jobHolders_pos {jobs : List Job} : 0 < jobHolders jobs fd ↔
    ∃ channel acceptSocket idleFd, .cleanup channel acceptSocket idleFd ∈ jobs ∧
      (acceptSocket = some fd ∨ idleFd = some fd) := by
  rw [jobHolders, List.sum_pos_iff_exists_pos_nat]
  constructor
  · rintro ⟨count, member, holds⟩
    obtain ⟨job, waits, rfl⟩ := List.mem_map.mp member
    cases job with
    | start server => exact absurd holds (Nat.lt_irrefl 0)
    | keep channel => exact absurd holds (Nat.lt_irrefl 0)
    | cleanup channel acceptSocket idleFd =>
      rw [Job.held, Nat.add_pos_iff_pos_or_pos, held_pos, held_pos] at holds
      exact ⟨channel, acceptSocket, idleFd, waits, holds⟩
  · rintro ⟨channel, acceptSocket, idleFd, waits, holds⟩
    refine ⟨_, List.mem_map_of_mem waits, ?_⟩
    rw [Job.held, Nat.add_pos_iff_pos_or_pos, held_pos, held_pos]
    exact holds

theorem Inventory.held_iff (inventory : Inventory none empty s) : 0 < s.holders fd + empty fd ↔ Held s fd := by
  rw [empty, Nat.add_zero, State.holders, Nat.add_pos_iff_pos_or_pos, Nat.add_pos_iff_pos_or_pos,
    connHolders_pos inventory.accounted, inventory.acceptorHolders_pos, jobHolders_pos, Held, or_assoc]

/-- When the loop has nothing left to do, whoever has a descriptor belongs to a server that exists. -/
theorem Inventory.serves (inventory : Inventory none empty s) (stack : s.world.stack = []) (queue : s.world.queue = [])
    (jobs : s.jobs = []) (held : Held s fd) : ∃ server, Serves s server fd := by
  rcases held with ⟨id, has⟩ | ⟨server, acceptor, found, has⟩ | ⟨_, _, _, waits, _⟩
  · obtain ⟨conn, found, opened⟩ := Option.bind_eq_some_iff.mp has
    have positive : 0 ≤ conn.socketFd := by
      by_contra closed
      rw [descriptor_of_closed (Int.not_le.mp closed)] at opened
      cases opened
    rcases inventory.accounted.due id conn found positive with ⟨owner, server, _, known, listed⟩ | tracked
    · exact ⟨owner, server, known, .inr ⟨id, (mem_values server).mpr ⟨conn.name, listed⟩, has⟩⟩
    · unfold Tracked at tracked
      rw [stack, queue] at tracked
      rcases tracked with ⟨_, member, _⟩ | waits | destroys
      · cases member
      · cases waits
      · cases destroys
  · have anchored := inventory.anchored server (Option.isSome_of_eq_some found) (Option.some_ne_none server).symm
    rw [anchored_iff, stack, jobs] at anchored
    rcases anchored with alive | reading | starting
    · obtain ⟨known, present⟩ := Option.isSome_iff_exists.mp alive
      exact ⟨server, known, present, .inl ⟨acceptor, found, has⟩⟩
    · cases reading
    · cases starting
  · rw [jobs] at waits
    cases waits

/-- A registered channel belongs to an owner that has its descriptor. -/
theorem Inventory.registered {descriptor : Option Nat} (inventory : Inventory none empty s)
    (registered : Registered s descriptor) : ∃ fd, descriptor = some fd ∧ Held s fd := by
  rcases registered with ⟨id, conn, found, listens, rfl⟩ | ⟨server, acceptor, channel, found, own, _, rfl⟩ |
    ⟨channel, acceptSocket, idleFd, waits, _, rfl⟩ | ⟨channel, kept, listens, _⟩
  · cases has : conn.descriptor with
    | some fd => exact ⟨fd, rfl, .inl ⟨id, Option.bind_eq_some_iff.mpr ⟨conn, found, has⟩⟩⟩
    | none =>
      have closed : conn.socketFd < 0 := by
        by_contra opened
        rw [TcpConnection.descriptor, if_pos (Int.not_lt.mp opened)] at has
        cases has
      have out := (inventory.accounted.retired id conn found).unregistered (inventory.accounted.sound id conn found)
        closed
      rw [out] at listens
      cases listens
  · obtain ⟨fd, has⟩ := Option.isSome_iff_exists.mp ((inventory.known server acceptor found).2.channel channel own).2
    exact ⟨fd, has, .inr (.inl ⟨server, acceptor, found, .inl has⟩)⟩
  · obtain ⟨fd, has⟩ := Option.isSome_iff_exists.mp (inventory.cleanups _ _ _ waits channel rfl).2
    exact ⟨fd, has, .inr (.inr ⟨some channel, descriptor, idleFd, waits, .inl has⟩)⟩
  · rw [inventory.kept channel kept] at listens
    cases listens

end Hvnetpp.Ledger
