import Hvnetpp.Reactor.Lifetime
import Hvnetpp.Tcp.Descriptor

namespace Hvnetpp.Reactor

open Machine Server Tcp

variable {w v u : World} {id : Nat} {conn : TcpConnection}

/-- The descriptor that the connection has still open. -/
def World.descriptor (w : World) (id : Nat) : Option Nat := (w.conns id).bind TcpConnection.descriptor

/-- The server that the close callback calls has the connection under its name. -/
def Mapped (w : World) (id : Nat) (conn : TcpConnection) : Prop :=
  ∃ owner server, conn.closeCallback = some owner ∧ w.servers owner = some server ∧
    server.connections.lookup conn.name = some id

/-- A call of `connectDestroyed` is in progress, waits as a functor, or is left to a destructor of a server. -/
def Tracked (w : World) (id : Nat) : Prop :=
  Among Frame.leaving w.stack id ∨ .connectDestroyed id ∈ w.queue ∨ .destroying id ∈ w.stack

structure Accounted (w : World) : Prop where
  bound : ∀ owner, w.nextServer ≤ owner → w.servers owner = none
  fresh : ∀ id, w.nextConn ≤ id → w.conns id = none
  sound : ∀ id conn, w.conns id = some conn → Sound conn
  retired : ∀ id conn, w.conns id = some conn → Retired conn
  ended : ∀ id, Among Frame.ended w.stack id → id < w.nextConn ∧
    ∀ conn, w.conns id = some conn → conn.state = .kDisconnected
  names : ∀ owner id other conn conn', w.conns id = some conn → w.conns other = some conn' →
    conn.closeCallback = some owner → conn'.closeCallback = some owner → conn.name = conn'.name → id = other
  due : ∀ id conn, w.conns id = some conn → 0 ≤ conn.socketFd → Mapped w id conn ∨ Tracked w id

theorem Accounted.lt_next (accounted : Accounted w) (found : w.conns id = some conn) : id < w.nextConn := by
  by_contra new
  rw [accounted.fresh id (Nat.not_lt.mp new)] at found
  cases found

/-- A step that leaves connections and servers alone, and loses track of no connection but the excepted one. -/
structure Still (except : Option Nat) (w v : World) : Prop where
  conns : v.conns = w.conns
  servers : v.servers = w.servers
  nextConn : v.nextConn = w.nextConn
  nextServer : v.nextServer = w.nextServer
  ended : ∀ id, except ≠ some id → Among Frame.ended v.stack id → Among Frame.ended w.stack id
  tracked : ∀ id, except ≠ some id → Tracked w id → Tracked v id
  accepting : ∀ server, .accepting server ∈ w.stack → .accepting server ∈ v.stack

theorem Still.refl (except : Option Nat) (w : World) : Still except w w :=
  ⟨rfl, rfl, rfl, rfl, fun _ _ ends => ends, fun _ _ tracked => tracked, fun _ member => member⟩

theorem Still.trans {except : Option Nat} (first : Still except w v) (second : Still except v u) :
    Still except w u where
  conns := second.conns.trans first.conns
  servers := second.servers.trans first.servers
  nextConn := second.nextConn.trans first.nextConn
  nextServer := second.nextServer.trans first.nextServer
  ended := fun id other ends => first.ended id other (second.ended id other ends)
  tracked := fun id other tracked => second.tracked id other (first.tracked id other tracked)
  accepting := fun server member => second.accepting server (first.accepting server member)

theorem Mapped.of_servers (mapped : Mapped w id conn) (servers : v.servers = w.servers) : Mapped v id conn := by
  obtain ⟨owner, server, own, known, listed⟩ := mapped
  exact ⟨owner, server, own, by rw [servers]; exact known, listed⟩

theorem Still.accounted (still : Still none w v) (accounted : Accounted w) : Accounted v where
  bound := by
    rw [still.servers, still.nextServer]
    exact accounted.bound
  fresh := by
    rw [still.conns, still.nextConn]
    exact accounted.fresh
  sound := by
    rw [still.conns]
    exact accounted.sound
  retired := by
    rw [still.conns]
    exact accounted.retired
  ended := by
    intro id ends
    rw [still.conns, still.nextConn]
    exact accounted.ended id (still.ended id (Option.some_ne_none id).symm ends)
  names := by
    rw [still.conns]
    exact accounted.names
  due := by
    intro id conn found opened
    rw [still.conns] at found
    rcases accounted.due id conn found opened with mapped | tracked
    · exact .inl (mapped.of_servers still.servers)
    · exact .inr (still.tracked id (Option.some_ne_none id).symm tracked)

theorem tracked_iff (stack : w.stack = v.stack) (queue : w.queue = v.queue) : Tracked w id ↔ Tracked v id := by
  unfold Tracked
  rw [stack, queue]

/-- Only fields that hold neither connections nor frames nor functors change. -/
theorem Still.of_eq (conns : v.conns = w.conns) (servers : v.servers = w.servers) (nextConn : v.nextConn = w.nextConn)
    (nextServer : v.nextServer = w.nextServer) (stack : v.stack = w.stack) (queue : v.queue = w.queue) :
    Still none w v where
  conns := conns
  servers := servers
  nextConn := nextConn
  nextServer := nextServer
  ended := by
    rw [stack]
    exact fun _ _ ends => ends
  tracked := fun _ _ => (tracked_iff stack queue).mpr
  accepting := by
    rw [stack]
    exact fun _ member => member

theorem Still.enqueue (w : World) (functors : List Functor) : Still none w (w.enqueue functors) := by
  refine { Still.refl none w with tracked := ?_ }
  rintro id _ (leaves | waits | destroys)
  · exact .inl leaves
  · exact .inr (.inl (List.mem_append_left _ waits))
  · exact .inr (.inr destroys)

theorem Still.push {except : Option Nat} (w : World) (frame : Frame) (plain : ∀ id ∈ frame.ended, except = some id) :
    Still except w (w.push frame) := by
  refine { Still.refl except w with ended := ?_, tracked := ?_, accepting := ?_ }
  · rintro id different ⟨other, member, ends⟩
    rcases List.mem_cons.mp member with rfl | below
    · exact absurd (plain id ends) different
    · exact ⟨other, below, ends⟩
  · rintro id _ (⟨other, member, leaves⟩ | waits | destroys)
    · exact .inl ⟨other, List.mem_cons_of_mem _ member, leaves⟩
    · exact .inr (.inl waits)
    · exact .inr (.inr (List.mem_cons_of_mem _ destroys))
  · exact fun server member => List.mem_cons_of_mem _ member

/-- The frame on top is replaced by others that keep the connection. -/
theorem Tracked.restack {frame : Frame} {above below : List Frame} (stack : w.stack = frame :: below)
    (leaving : id ∈ frame.leaving → Among Frame.leaving above id) (destroying : frame ≠ .destroying id)
    (tracked : Tracked w id) : Tracked { w with stack := above ++ below } id := by
  unfold Tracked at tracked
  rw [stack] at tracked
  rcases tracked with ⟨other, member, leaves⟩ | waits | destroys
  · rcases List.mem_cons.mp member with rfl | lower
    · exact .inl (among_append.mpr (.inl (leaving leaves)))
    · exact .inl (among_append.mpr (.inr ⟨other, lower, leaves⟩))
  · exact .inr (.inl waits)
  · rcases List.mem_cons.mp destroys with top | lower
    · exact absurd top.symm destroying
    · exact .inr (.inr (List.mem_append_right _ lower))

/-- The frame on top is replaced by others that keep track of all but the excepted connection. -/
theorem Still.restack {except : Option Nat} {frame : Frame} {above below : List Frame}
    (stack : w.stack = frame :: below) (ended : ∀ id, Among Frame.ended above id → id ∈ frame.ended)
    (leaving : ∀ id ∈ frame.leaving, except ≠ some id → Among Frame.leaving above id)
    (destroying : ∀ id, frame = .destroying id → except = some id) (accepting : ∀ server, frame ≠ .accepting server) :
    Still except w { w with stack := above ++ below } := by
  refine { Still.refl except w with ended := ?_, tracked := ?_, accepting := ?_ }
  · intro id _ ends
    rw [stack]
    rcases among_append.mp ends with above | ⟨other, lower, ends⟩
    · exact ⟨frame, List.mem_cons_self, ended id above⟩
    · exact ⟨other, List.mem_cons_of_mem _ lower, ends⟩
  · intro id different
    exact Tracked.restack stack (fun leaves => leaving id leaves different) fun top => different (destroying id top)
  · intro server member
    rw [stack] at member
    rcases List.mem_cons.mp member with top | lower
    · exact absurd top.symm (accepting server)
    · exact List.mem_append_right _ lower

theorem Still.retop {except : Option Nat} {frame next : Frame} {below : List Frame} (stack : w.stack = frame :: below)
    (ended : ∀ id ∈ next.ended, id ∈ frame.ended) (leaving : ∀ id ∈ frame.leaving, except ≠ some id → id ∈ next.leaving)
    (destroying : ∀ id, frame = .destroying id → except = some id) (accepting : ∀ server, frame ≠ .accepting server) :
    Still except w { w with stack := next :: below } := by
  have replaced : Still except w { w with stack := [next] ++ below } := by
    apply Still.restack stack _ _ destroying accepting
    · exact fun id ends => ended id (among_single.mp ends)
    · exact fun id leaves different => among_single.mpr (leaving id leaves different)
  exact replaced

theorem pop_eq {frame : Frame} {below : List Frame} (stack : w.stack = frame :: below) :
    w.pop = { w with stack := [] ++ below } := by
  rw [World.pop, stack]
  rfl

theorem Still.pop {except : Option Nat} {frame : Frame} {below : List Frame} (stack : w.stack = frame :: below)
    (leaving : frame.leaving = []) (destroying : ∀ id, frame = .destroying id → except = some id)
    (accepting : ∀ server, frame ≠ .accepting server) : Still except w w.pop := by
  rw [pop_eq stack]
  apply Still.restack stack _ _ destroying accepting
  · exact fun id ends => absurd ends not_among_nil
  · intro id leaves
    rw [leaving] at leaves
    cases leaves

theorem Still.dequeue {except : Option Nat} (w : World) (functor : Functor)
    (kept : ∀ id, functor = .connectDestroyed id → except = some id) :
    Still except w { w with queue := w.queue.erase functor } := by
  refine { Still.refl except w with tracked := ?_ }
  rintro id different (leaves | waits | destroys)
  · exact .inl leaves
  · refine .inr (.inl ((List.mem_erase_of_ne ?_).mpr waits))
    intro same
    exact different (kept id same.symm)
  · exact .inr (.inr destroys)

/-- One step of the loop: descriptors are closed only after their channel was removed from the poller, and
    neither a server nor a running `handleRead` goes away. -/
structure Sheds (w v : World) : Prop where
  accounted : Accounted v
  nextConn : v.nextConn = w.nextConn
  nextServer : v.nextServer = w.nextServer
  servers : ∀ owner, (v.servers owner).isSome = (w.servers owner).isSome
  accepting : ∀ server, .accepting server ∈ w.stack → .accepting server ∈ v.stack
  descriptors : ∀ id, v.descriptor id = w.descriptor id ∨
    v.descriptor id = none ∧ ∀ conn, w.conns id = some conn → conn.channel.remove.registered = false

theorem Still.sheds (still : Still none w v) (accounted : Accounted w) : Sheds w v where
  accounted := still.accounted accounted
  nextConn := still.nextConn
  nextServer := still.nextServer
  servers := by
    intro owner
    rw [still.servers]
  accepting := still.accepting
  descriptors := by
    intro id
    unfold World.descriptor
    rw [still.conns]
    exact .inl rfl

theorem Accounted.untouched (accounted : Accounted w) (conns : v.conns = w.conns) (servers : v.servers = w.servers)
    (nextConn : v.nextConn = w.nextConn) (nextServer : v.nextServer = w.nextServer) (stack : v.stack = w.stack)
    (queue : v.queue = w.queue) : Sheds w v :=
  (Still.of_eq conns servers nextConn nextServer stack queue).sheds accounted

theorem Still.trans_sheds {except : Option Nat} (still : Still except w v) (sheds : Sheds v u) : Sheds w u where
  accounted := sheds.accounted
  nextConn := sheds.nextConn.trans still.nextConn
  nextServer := sheds.nextServer.trans still.nextServer
  servers := by
    intro owner
    rw [← still.servers]
    exact sheds.servers owner
  accepting := fun server member => sheds.accepting server (still.accepting server member)
  descriptors := by
    intro id
    have same : v.descriptor id = w.descriptor id := by
      unfold World.descriptor
      rw [still.conns]
    rw [← same, ← still.conns]
    exact sheds.descriptors id

/-- The connection becomes `d`, which is accounted for, and track is lost of no other. -/
theorem Accounted.change {d : TcpConnection} (accounted : Accounted w) (found : w.conns id = some conn)
    (still : Still (some id) w u) (name : d.name = conn.name)
    (callback : ∀ owner, d.closeCallback = some owner → conn.closeCallback = some owner)
    (off : Among Frame.ended u.stack id → d.state = .kDisconnected) (sound : Sound d) (retired : Retired d)
    (due : 0 ≤ d.socketFd → Mapped u id d ∨ Tracked u id) : Accounted (u.setConn id d) := by
  have old : ∀ {other : Nat} {e : TcpConnection}, (u.setConn id d).conns other = some e →
      (other = id ∧ e = d) ∨ (other ≠ id ∧ w.conns other = some e) := by
    intro other e present
    rw [← still.conns]
    exact setConn_conns present
  refine { bound := ?_, fresh := ?_, sound := ?_, retired := ?_, ended := ?_, names := ?_, due := ?_ }
  · have bound := accounted.bound
    rw [← still.servers, ← still.nextServer] at bound
    exact bound
  · intro other new
    have differs : other ≠ id := by
      rintro rfl
      have less := accounted.lt_next found
      rw [← still.nextConn] at less
      exact absurd new (Nat.not_le.mpr less)
    rw [setConn_other u d differs, still.conns]
    exact accounted.fresh other (still.nextConn ▸ new)
  · intro other e present
    rcases old present with ⟨_, rfl⟩ | ⟨_, before⟩
    · exact sound
    · exact accounted.sound other e before
  · intro other e present
    rcases old present with ⟨_, rfl⟩ | ⟨_, before⟩
    · exact retired
    · exact accounted.retired other e before
  · intro other ends
    by_cases same : other = id
    · subst same
      refine ⟨still.nextConn ▸ accounted.lt_next found, ?_⟩
      intro e present
      cases (setConn_self u other d).symm.trans present
      exact off ends
    · have before := accounted.ended other
        (still.ended other (fun equal => same (Option.some.inj equal).symm) ends)
      rw [← still.nextConn, ← still.conns] at before
      refine ⟨before.1, ?_⟩
      intro e present
      rw [setConn_other u d same] at present
      exact before.2 e present
  · intro owner first second c e presentC presentE ownC ownE same
    rcases old presentC with ⟨rfl, rfl⟩ | ⟨_, oldC⟩
    · rcases old presentE with ⟨rfl, rfl⟩ | ⟨_, oldE⟩
      · rfl
      · exact accounted.names owner first second conn e found oldE (callback owner ownC) ownE (name.symm.trans same)
    · rcases old presentE with ⟨rfl, rfl⟩ | ⟨_, oldE⟩
      · exact accounted.names owner first second c conn oldC found ownC (callback owner ownE) (same.trans name)
      · exact accounted.names owner first second c e oldC oldE ownC ownE same
  · intro other e present opened
    rcases old present with ⟨rfl, rfl⟩ | ⟨differs, before⟩
    · exact due opened
    · rcases accounted.due other e before opened with mapped | tracked
      · exact .inl (mapped.of_servers still.servers)
      · exact .inr (still.tracked other (fun same => differs (Option.some.inj same).symm) tracked)

theorem setConn_descriptor (w : World) (d : TcpConnection) (other : Nat) :
    (w.setConn id d).descriptor other = if other = id then d.descriptor else w.descriptor other := by
  unfold World.descriptor
  by_cases same : other = id
  · rw [if_pos same, same, setConn_self]
    rfl
  · rw [if_neg same, setConn_other w d same]

/-- The descriptor of the connection stays as it is. -/
theorem Accounted.steady {d : TcpConnection} (accounted : Accounted w) (found : w.conns id = some conn)
    (kept : Kept conn d) (steady : Steady conn d) : Sheds w (w.setConn id d) := by
  have due : 0 ≤ d.socketFd → Mapped w id d ∨ Tracked w id := by
    intro opened
    rw [steady.socketFd] at opened
    rcases accounted.due id conn found opened with ⟨owner, server, own, known, listed⟩ | tracked
    · exact .inl ⟨owner, server, kept.closeCallback.trans own, known, by rw [kept.name]; exact listed⟩
    · exact .inr tracked
  refine ⟨?_, rfl, rfl, fun _ => rfl, fun _ member => member, ?_⟩
  · apply accounted.change found (.refl _ w) kept.name _ _ (kept.sound (accounted.sound id conn found))
      (steady.retired kept (accounted.retired id conn found)) due
    · intro owner own
      rw [← kept.closeCallback]
      exact own
    · intro ends
      exact kept.closed ((accounted.ended id ends).2 conn found)
  · intro other
    rw [setConn_descriptor]
    by_cases same : other = id
    · subst same
      rw [if_pos rfl, steady.descriptor, World.descriptor, found]
      exact .inl rfl
    · rw [if_neg same]
      exact .inl rfl

theorem Sheds.trans_still (sheds : Sheds w v) (still : Still none v u) : Sheds w u where
  accounted := still.accounted sheds.accounted
  nextConn := still.nextConn.trans sheds.nextConn
  nextServer := still.nextServer.trans sheds.nextServer
  servers := by
    intro owner
    rw [still.servers]
    exact sheds.servers owner
  accepting := fun server member => still.accepting server (sheds.accepting server member)
  descriptors := by
    intro id
    have same : u.descriptor id = v.descriptor id := by
      unfold World.descriptor
      rw [still.conns]
    rw [same]
    exact sheds.descriptors id

theorem Still.callback (w : World) (id : Nat) (call : Call) : Still none w (w.callback id call) :=
  (Still.push w (.user (some id)) fun _ none => nomatch none).trans (.of_eq rfl rfl rfl rfl rfl rfl)

/-- `handleClose` leaves a frame for the rest of it. -/
theorem Sheds.pushClosing (sheds : Sheds w v) (found : v.conns id = some conn) (off : conn.state = .kDisconnected) :
    Sheds w (v.push (.closing id)) := by
  have accounted := sheds.accounted
  refine { sheds with accounted := ?_, accepting := ?_ }
  · refine { accounted with ended := ?_, due := ?_ }
    · rintro other ⟨frame, member, ends⟩
      rcases List.mem_cons.mp member with rfl | below
      · cases List.mem_singleton.mp ends
        refine ⟨accounted.lt_next found, ?_⟩
        intro e present
        cases found.symm.trans present
        exact off
      · exact accounted.ended other ⟨frame, below, ends⟩
    · intro other e present opened
      rcases accounted.due other e present opened with mapped | ⟨frame, member, leaves⟩ | waits | destroys
      · exact .inl mapped
      · exact .inr (.inl ⟨frame, List.mem_cons_of_mem _ member, leaves⟩)
      · exact .inr (.inr (.inl waits))
      · exact .inr (.inr (.inr (List.mem_cons_of_mem _ destroys)))
  · exact fun server member => List.mem_cons_of_mem _ (sheds.accepting server member)

theorem Accounted.reply {reply : Reply} (accounted : Accounted w) (found : w.conns id = some conn)
    (kept : Kept conn reply.conn) (steady : Steady conn reply.conn)
    (closing : reply.next = .closing → reply.conn.state = .kDisconnected) : Sheds w (w.reply id reply) := by
  have queued := (accounted.steady found kept steady).trans_still
    (.enqueue (w.setConn id reply.conn) (reply.tasks.map (.task id)))
  unfold World.reply
  cases next : reply.next with
  | done => exact queued
  | message => exact queued.trans_still (.callback _ id _)
  | closing =>
    have present : ((w.setConn id reply.conn).enqueue (reply.tasks.map (.task id))).conns id = some reply.conn :=
      setConn_self ..
    exact (queued.pushClosing present (closing next)).trans_still (.callback _ id _)

/-- `connectDestroyed`, once it is no longer waiting for it. -/
theorem Accounted.connectDestroyed {d : TcpConnection} (accounted : Accounted w) (found : w.conns id = some conn)
    (still : Still (some id) w u) (name : d.name = conn.name) (state : d.state = conn.state)
    (channel : d.channel = conn.channel) (socketFd : d.socketFd = conn.socketFd)
    (callback : ∀ owner, d.closeCallback = some owner → conn.closeCallback = some owner) :
    Sheds w (u.connectDestroyed id d) := by
  have before := accounted.sound id conn found
  have sound : Sound d := by
    constructor
    · rw [channel]
      exact before.agrees
    · rw [state, channel]
      exact before.quiet
  have servers : ∀ owner, (u.servers owner).isSome = (w.servers owner).isSome := by
    intro owner
    rw [still.servers]
  have others : ∀ other, other ≠ id → u.descriptor other = w.descriptor other := by
    intro other _
    unfold World.descriptor
    rw [still.conns]
  unfold World.connectDestroyed
  split
  · have pushed : Still (some id) u (u.push (.destroying id)) :=
      Still.push u (.destroying id) fun other ends => by rw [List.mem_singleton.mp ends]
    have retired : Retired d.disconnect := by
      intro closed
      refine ⟨rfl, Channel.disableAll_addedToLoop ?_⟩
      rw [channel]
      exact (accounted.retired id conn found (socketFd ▸ closed)).2
    have changed : Accounted ((u.push (.destroying id)).setConn id d.disconnect) := by
      apply accounted.change (d := d.disconnect) found (still.trans pushed) name callback (fun _ => rfl) _ retired
      · exact fun _ => .inr (.inr (.inr List.mem_cons_self))
      · exact (Kept.disconnect d).sound sound
    have sheds : Sheds w ((u.push (.destroying id)).setConn id d.disconnect) := by
      refine ⟨changed, still.nextConn, still.nextServer, servers, ?_, ?_⟩
      · exact fun server member => List.mem_cons_of_mem _ (still.accepting server member)
      · intro other
        rw [setConn_descriptor]
        by_cases same : other = id
        · subst same
          rw [if_pos rfl, (Steady.disconnect d).descriptor, World.descriptor, found]
          simp only [TcpConnection.descriptor, socketFd]
          exact .inl rfl
        · rw [if_neg same]
          exact .inl (others other same)
    exact sheds.trans_still (.callback _ id _)
  · rename_i off
    rw [not_not] at off
    have kept := Kept.release d off
    refine ⟨?_, still.nextConn, still.nextServer, servers, still.accepting, ?_⟩
    · apply accounted.change found still (kept.name.trans name) _ (fun _ => kept.closed off) (kept.sound sound)
        (Retired.release d off)
      · intro opened
        exact absurd (release_closed d) (Int.not_lt.mpr opened)
      · intro owner own
        rw [kept.closeCallback] at own
        exact callback owner own
    · intro other
      rw [setConn_descriptor]
      by_cases same : other = id
      · subst same
        rw [if_pos rfl, release_descriptor]
        refine .inr ⟨rfl, ?_⟩
        intro e present
        cases found.symm.trans present
        exact before.removed (state.symm.trans off)
      · rw [if_neg same]
        exact .inl (others other same)

/-- `removeConnectionInLoop` takes out the connection it is called for, which a functor keeps. -/
theorem Accounted.closeCallback (accounted : Accounted w) (found : w.conns id = some conn) :
    Sheds w (w.closeCallback id conn) := by
  unfold World.closeCallback
  split
  · exact (Still.refl none w).sheds accounted
  · rename_i owner own
    split
    · exact (Still.refl none w).sheds accounted
    · rename_i server known
      refine ⟨?_, rfl, rfl, ?_, fun _ member => member, fun _ => .inl rfl⟩
      · refine { accounted with bound := ?_, due := ?_ }
        · intro lister new
          have differs : lister ≠ owner := by
            rintro rfl
            rw [accounted.bound lister new] at known
            cases known
          exact (Function.update_of_ne differs ..).trans (accounted.bound lister new)
        · intro other e present opened
          rcases accounted.due other e present opened with ⟨lister, before, owns, knownBefore, listed⟩ | tracked
          · by_cases same : lister = owner
            · subst same
              cases known.symm.trans knownBefore
              by_cases erased : e.name = conn.name
              · have itself := accounted.names lister other id e conn present found owns own erased
                subst itself
                exact .inr (.inr (.inl (List.mem_append_right _ (List.mem_singleton_self _))))
              · refine .inl ⟨lister, server.removeConnectionInLoop conn.name, owns, Function.update_self .., ?_⟩
                exact (AList.lookup_erase_ne erased).trans listed
            · exact .inl ⟨lister, before, owns, (Function.update_of_ne same ..).trans knownBefore, listed⟩
          · exact .inr ((Still.enqueue w [.connectDestroyed id]).tracked other (Option.some_ne_none other).symm tracked)
      · intro lister
        by_cases same : lister = owner
        · subst same
          simp [World.enqueue, known]
        · simp [World.enqueue, Function.update_of_ne same]

end Hvnetpp.Reactor
