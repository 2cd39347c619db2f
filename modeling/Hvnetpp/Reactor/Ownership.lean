import Hvnetpp.Reactor.Model
import Hvnetpp.Tcp.Lifecycle

namespace Hvnetpp.Reactor

open Machine Server Tcp

variable {w v : World} {id : Nat} {conn : TcpConnection}

def Lists (w : World) (id : Nat) : Prop :=
  ∃ owner server name, w.servers owner = some server ∧ server.connections.lookup name = some id

def Queued (w : World) (id : Nat) : Prop := ∃ functor ∈ w.queue, functor.conn = some id

/-- The connections that a frame still has to disconnect. -/
def Frame.leaving : Frame → List Nat
  | .destructor rest => rest
  | .user _ | .closing _ | .destroying _ | .event _ _ | .accepting _ => []

/-- The connections that a frame has disconnected. -/
def Frame.ended : Frame → List Nat
  | .closing conn | .destroying conn => [conn]
  | .user _ | .destructor _ | .event _ _ | .accepting _ => []

def Among (part : Frame → List Nat) (stack : List Frame) (id : Nat) : Prop := ∃ frame ∈ stack, id ∈ part frame

def Holds (w : World) (id : Nat) : Prop := Lists w id ∨ Queued w id ∨ Among Frame.conns w.stack id ∨ id ∈ w.user

/-- The channel is kept by something that lasts to the end of the batch. -/
def Anchored (w : World) : ChannelRef → Prop
  | .connection id => Lists w id ∨ Queued w id ∨ id ∈ w.user
  | .acceptor server => (w.acceptors server).isSome = true ∨ .keepAcceptor server ∈ w.queue
  | .udp socket => (w.udps socket).isSome = true ∨ .keepUdp socket ∈ w.queue
  | .loop => True

structure Inv (w : World) : Prop where
  bound : ∀ owner, w.nextServer ≤ owner → w.servers owner = none
  fresh : ∀ id, w.nextConn ≤ id → w.conns id = none
  present : ∀ id, Holds w id → ∃ conn, w.conns id = some conn
  owned : ∀ owner server name id conn, w.servers owner = some server →
    server.connections.lookup name = some id → w.conns id = some conn →
    conn.name = name ∧ conn.closeCallback = some owner
  sound : ∀ id conn, w.conns id = some conn → Sound conn
  open_ : ∀ id conn, w.conns id = some conn → conn.state ≠ .kDisconnected →
    Lists w id ∨ Among Frame.leaving w.stack id
  leaving : ∀ id, Among Frame.leaving w.stack id → ¬ Lists w id
  ended : ∀ id conn, Among Frame.ended w.stack id → w.conns id = some conn → conn.state = .kDisconnected
  names : ∀ owner id other conn conn', w.conns id = some conn → w.conns other = some conn' →
    conn.closeCallback = some owner → conn'.closeCallback = some owner → conn.name = conn'.name → id = other
  pending : ∀ entry ∈ w.pending, Anchored w entry.1
  unharmed : w.dangling = false

theorem mem_values (server : TcpServer Nat) : id ∈ server.connections.entries.map Sigma.snd ↔
    ∃ name, server.connections.lookup name = some id := by
  constructor
  · intro member
    obtain ⟨⟨name, value⟩, entry, rfl⟩ := List.mem_map.mp member
    exact ⟨name, AList.mem_lookup_iff.mpr entry⟩
  · rintro ⟨name, listed⟩
    exact List.mem_map.mpr ⟨⟨name, id⟩, AList.mem_lookup_iff.mp listed, rfl⟩

theorem lists_iff (owner : Nat) : w.lists owner id = true ↔
    ∃ server name, w.servers owner = some server ∧ server.connections.lookup name = some id := by
  unfold World.lists
  cases known : w.servers owner with
  | none => simp
  | some server =>
    have entry : (server.connections.entries.any fun entry => entry.2 == id) = true ↔
        id ∈ server.connections.entries.map Sigma.snd := by
      simp only [List.any_eq_true, beq_iff_eq, List.mem_map]
    simp only [entry, mem_values, Option.some.injEq, exists_and_left, exists_eq_left']

theorem listed_iff (bound : ∀ owner, w.nextServer ≤ owner → w.servers owner = none) :
    w.listed id = true ↔ Lists w id := by
  simp only [World.listed, List.any_eq_true, List.mem_range, lists_iff]
  constructor
  · rintro ⟨owner, _, server, name, found, listed⟩
    exact ⟨owner, server, name, found, listed⟩
  · rintro ⟨owner, server, name, found, listed⟩
    refine ⟨owner, ?_, server, name, found, listed⟩
    by_contra new
    rw [bound owner (Nat.not_lt.mp new)] at found
    cases found

theorem queued_iff : w.queued id = true ↔ Queued w id := by
  simp [World.queued, Queued]

theorem held_iff (bound : ∀ owner, w.nextServer ≤ owner → w.servers owner = none) :
    w.held id = true ↔ Holds w id := by
  simp only [World.held, Bool.or_eq_true, listed_iff bound, queued_iff, World.onStack, List.any_eq_true,
    List.contains_iff_mem, Holds, Among, or_assoc]

theorem Anchored.holds (anchored : Anchored w (.connection id)) : Holds w id := by
  rcases anchored with listed | queued | kept
  · exact .inl listed
  · exact .inr (.inl queued)
  · exact .inr (.inr (.inr kept))

theorem Inv.lt_next (inv : Inv w) (found : w.conns id = some conn) : id < w.nextConn := by
  by_contra new
  rw [inv.fresh id (Nat.not_lt.mp new)] at found
  cases found

theorem Inv.collect (inv : Inv w) : Inv w.collect := by
  have kept : ∀ id conn, w.collect.conns id = some conn → w.conns id = some conn := by
    intro id conn present
    simp only [World.collect] at present
    split at present
    · exact present
    · cases present
  refine { inv with fresh := ?_, present := ?_, owned := ?_, sound := ?_, open_ := ?_, ended := ?_, names := ?_ }
  · intro id new
    simp only [World.collect, inv.fresh id new, ite_self]
  · intro id holds
    obtain ⟨conn, present⟩ := inv.present id holds
    exact ⟨conn, by simp only [World.collect, (held_iff inv.bound).mpr holds, if_true, present]⟩
  · exact fun owner server name id conn found listed present =>
      inv.owned owner server name id conn found listed (kept id conn present)
  · exact fun id conn present => inv.sound id conn (kept id conn present)
  · exact fun id conn present => inv.open_ id conn (kept id conn present)
  · exact fun id conn ends present => inv.ended id conn ends (kept id conn present)
  · exact fun owner id other conn conn' present present' =>
      inv.names owner id other conn conn' (kept id conn present) (kept other conn' present')

theorem setConn_self (w : World) (id : Nat) (d : TcpConnection) : (w.setConn id d).conns id = some d :=
  Function.update_self ..

theorem setConn_other (w : World) (d : TcpConnection) {other : Nat} (differs : other ≠ id) :
    (w.setConn id d).conns other = w.conns other :=
  Function.update_of_ne differs ..

theorem setConn_conns {d e : TcpConnection} {other : Nat} (present : (w.setConn id d).conns other = some e) :
    (other = id ∧ e = d) ∨ (other ≠ id ∧ w.conns other = some e) := by
  by_cases same : other = id
  · rw [same, setConn_self] at present
    exact .inl ⟨same, (Option.some.inj present).symm⟩
  · rw [setConn_other w d same] at present
    exact .inr ⟨same, present⟩

theorem Inv.setConn {d : TcpConnection} (inv : Inv w) (found : w.conns id = some conn)
    (name : d.name = conn.name)
    (callback : d.closeCallback = conn.closeCallback ∨ (d.closeCallback = none ∧ ¬ Lists w id))
    (closed : conn.state = .kDisconnected → d.state = .kDisconnected) (sound : Sound d) :
    Inv (w.setConn id d) := by
  have owner : ∀ owner, d.closeCallback = some owner → conn.closeCallback = some owner := by
    intro owner set
    rcases callback with same | ⟨off, _⟩
    · exact same.symm.trans set
    · rw [off] at set
      cases set
  refine { inv with fresh := ?_, present := ?_, owned := ?_, sound := ?_, open_ := ?_, ended := ?_, names := ?_ }
  · intro other new
    have old := inv.lt_next found
    have differs : other ≠ id := Nat.ne_of_gt (Nat.lt_of_lt_of_le old new)
    exact (setConn_other w d differs).trans (inv.fresh other new)
  · intro other holds
    by_cases same : other = id
    · rw [same]
      exact ⟨d, setConn_self w id d⟩
    · rw [setConn_other w d same]
      exact inv.present other holds
  · intro lister server key other e known listed present
    rcases setConn_conns present with ⟨rfl, rfl⟩ | ⟨_, present⟩
    · obtain ⟨named, owns⟩ := inv.owned lister server key other conn known listed found
      rcases callback with same | ⟨_, unlisted⟩
      · exact ⟨name.trans named, same.trans owns⟩
      · exact absurd ⟨lister, server, key, known, listed⟩ unlisted
    · exact inv.owned lister server key other e known listed present
  · intro other e present
    rcases setConn_conns present with ⟨rfl, rfl⟩ | ⟨_, present⟩
    · exact sound
    · exact inv.sound other e present
  · intro other e present on
    rcases setConn_conns present with ⟨rfl, rfl⟩ | ⟨_, present⟩
    · exact inv.open_ other conn found fun off => on (closed off)
    · exact inv.open_ other e present on
  · intro other e ends present
    rcases setConn_conns present with ⟨rfl, rfl⟩ | ⟨_, present⟩
    · exact closed (inv.ended other conn ends found)
    · exact inv.ended other e ends present
  · intro lister first second c e presentC presentE ownC ownE same
    rcases setConn_conns presentC with ⟨rfl, rfl⟩ | ⟨_, oldC⟩
    · rcases setConn_conns presentE with ⟨rfl, rfl⟩ | ⟨_, oldE⟩
      · rfl
      · exact inv.names lister first second conn e found oldE (owner lister ownC) ownE (name.symm.trans same)
    · rcases setConn_conns presentE with ⟨rfl, rfl⟩ | ⟨_, oldE⟩
      · exact inv.names lister first second c conn oldC found ownC (owner lister ownE) (same.trans name)
      · exact inv.names lister first second c e oldC oldE ownC ownE same

theorem Inv.kept {d : TcpConnection} (inv : Inv w) (found : w.conns id = some conn) (kept : Kept conn d) :
    Inv (w.setConn id d) :=
  inv.setConn found kept.name (.inl kept.closeCallback) kept.closed (kept.sound (inv.sound id conn found))

theorem among_append {part : Frame → List Nat} {first second : List Frame} :
    Among part (first ++ second) id ↔ Among part first id ∨ Among part second id := by
  simp only [Among, List.mem_append, or_and_right, exists_or]

theorem among_single {part : Frame → List Nat} {frame : Frame} : Among part [frame] id ↔ id ∈ part frame := by
  simp [Among]

theorem not_among_nil {part : Frame → List Nat} : ¬ Among part [] id := by simp [Among]

theorem Inv.restack (inv : Inv w) {below : List Frame} (before after : List Frame)
    (stack : w.stack = before ++ below)
    (present : ∀ id, Among Frame.conns after id → ∃ conn, w.conns id = some conn)
    (fewer : ∀ id, Among Frame.leaving after id → Among Frame.leaving before id)
    (stays : ∀ id conn, Among Frame.leaving before id → w.conns id = some conn →
      conn.state ≠ .kDisconnected → Among Frame.leaving after id)
    (ended : ∀ id conn, Among Frame.ended after id → w.conns id = some conn → conn.state = .kDisconnected) :
    Inv { w with stack := after ++ below } := by
  have old : ∀ part id, Among part below id → Among part w.stack id := by
    intro part id among
    rw [stack]
    exact among_append.mpr (.inr among)
  refine { inv with present := ?_, open_ := ?_, leaving := ?_, ended := ?_ }
  · rintro id (listed | queued | running | kept)
    · exact inv.present id (.inl listed)
    · exact inv.present id (.inr (.inl queued))
    · rcases among_append.mp running with new | among
      · exact present id new
      · exact inv.present id (.inr (.inr (.inl (old _ id among))))
    · exact inv.present id (.inr (.inr (.inr kept)))
  · intro id conn found on
    rcases inv.open_ id conn found on with listed | leaves
    · exact .inl listed
    · rw [stack] at leaves
      apply Or.inr
      rcases among_append.mp leaves with top | among
      · exact among_append.mpr (.inl (stays id conn top found on))
      · exact among_append.mpr (.inr among)
  · intro id leaves
    apply inv.leaving
    rw [stack]
    rcases among_append.mp leaves with new | among
    · exact among_append.mpr (.inl (fewer id new))
    · exact among_append.mpr (.inr among)
  · intro id conn ends found
    rcases among_append.mp ends with new | among
    · exact ended id conn new found
    · exact inv.ended id conn (old _ id among) found

theorem Inv.push (inv : Inv w) (frame : Frame) (plain : frame.leaving = [])
    (present : ∀ id ∈ frame.conns, ∃ conn, w.conns id = some conn)
    (ended : ∀ id ∈ frame.ended, ∀ conn, w.conns id = some conn → conn.state = .kDisconnected) :
    Inv (w.push frame) := by
  apply inv.restack [] [frame] (List.nil_append w.stack).symm
  · exact fun id among => present id (among_single.mp among)
  · intro id among
    rw [among_single, plain] at among
    cases among
  · exact fun id conn among => absurd among not_among_nil
  · exact fun id conn among => ended id (among_single.mp among) conn

theorem Frame.leaving_subset (frame : Frame) : ∀ id ∈ frame.leaving, id ∈ frame.conns := by
  cases frame with
  | destructor rest => exact fun id member => member
  | user conn | closing conn | destroying conn | event conn rest | accepting server => exact fun _ member => nomatch member

theorem Frame.ended_subset (frame : Frame) : ∀ id ∈ frame.ended, id ∈ frame.conns := by
  cases frame with
  | closing conn | destroying conn => exact fun id member => member
  | user conn | destructor rest | event conn rest | accepting server => exact fun _ member => nomatch member

theorem Inv.pushOne (inv : Inv w) (found : w.conns id = some conn) (frame : Frame) (plain : frame.leaving = [])
    (own : frame.conns = [id]) (ended : frame.ended ≠ [] → conn.state = .kDisconnected) :
    Inv (w.push frame) := by
  apply inv.push frame plain
  · intro other member
    rw [own, List.mem_singleton] at member
    exact ⟨conn, member ▸ found⟩
  · intro other member d present
    have same : other = id := by
      rw [← List.mem_singleton, ← own]
      exact frame.ended_subset other member
    rw [same, found] at present
    cases present
    exact ended (List.ne_nil_of_mem member)

theorem Inv.pop (inv : Inv w) {frame : Frame} {below : List Frame} (stack : w.stack = frame :: below)
    (plain : frame.leaving = []) : Inv w.pop := by
  have popped : w.pop = { w with stack := [] ++ below } := by rw [World.pop, stack]; rfl
  rw [popped]
  apply inv.restack [frame] [] stack
  · exact fun id among => absurd among not_among_nil
  · exact fun id among => absurd among not_among_nil
  · intro id conn among
    rw [among_single, plain] at among
    cases among
  · exact fun id conn among => absurd among not_among_nil

theorem Anchored.mono {ref : ChannelRef} (anchored : Anchored w ref) (lists : ∀ id, Lists w id → Lists v id)
    (queue : ∀ functor ∈ w.queue, functor ∈ v.queue) (user : ∀ id ∈ w.user, id ∈ v.user)
    (acceptors : ∀ server, (w.acceptors server).isSome = true →
      (v.acceptors server).isSome = true ∨ .keepAcceptor server ∈ v.queue)
    (udps : ∀ socket, (w.udps socket).isSome = true →
      (v.udps socket).isSome = true ∨ .keepUdp socket ∈ v.queue) : Anchored v ref := by
  cases ref with
  | connection id =>
    rcases anchored with listed | ⟨functor, member, captured⟩ | kept
    · exact .inl (lists id listed)
    · exact .inr (.inl ⟨functor, queue functor member, captured⟩)
    · exact .inr (.inr (user id kept))
  | acceptor server =>
    rcases anchored with present | member
    · exact acceptors server present
    · exact .inr (queue _ member)
  | udp socket =>
    rcases anchored with present | member
    · exact udps socket present
    · exact .inr (queue _ member)
  | loop => exact anchored

theorem Inv.enqueue (inv : Inv w) (functors : List Functor)
    (present : ∀ functor ∈ functors, ∀ id, functor.conn = some id → ∃ conn, w.conns id = some conn) :
    Inv (w.enqueue functors) := by
  refine { inv with present := ?_, pending := ?_ }
  · rintro id (listed | ⟨functor, member, captured⟩ | running | kept)
    · exact inv.present id (.inl listed)
    · rcases List.mem_append.mp member with old | new
      · exact inv.present id (.inr (.inl ⟨functor, old, captured⟩))
      · exact present functor new id captured
    · exact inv.present id (.inr (.inr (.inl running)))
    · exact inv.present id (.inr (.inr (.inr kept)))
  · intro entry member
    exact (inv.pending entry member).mono (fun _ listed => listed)
      (fun _ old => List.mem_append_left _ old) (fun _ kept => kept) (fun _ => .inl) (fun _ => .inl)

theorem Inv.setAcceptor (inv : Inv w) (server : Nat) (channel : Option Channel)
    (kept : channel.isSome = true ∨ .keepAcceptor server ∈ w.queue) :
    Inv { w with acceptors := Function.update w.acceptors server channel } := by
  refine { inv with pending := fun entry member => ?_ }
  refine (inv.pending entry member).mono (fun _ listed => listed) (fun _ old => old) (fun _ old => old) ?_ ?_
  · intro other present
    by_cases same : other = server
    · rw [same]
      simpa only [Function.update_self] using kept
    · simp only [Function.update_of_ne same]
      exact .inl present
  · exact fun _ => .inl

theorem Inv.setUdp (inv : Inv w) (socket next : Nat) (channel : Option Channel)
    (kept : channel.isSome = true ∨ .keepUdp socket ∈ w.queue) :
    Inv { w with udps := Function.update w.udps socket channel, nextUdp := next } := by
  refine { inv with pending := fun entry member => ?_ }
  refine (inv.pending entry member).mono (fun _ listed => listed) (fun _ old => old) (fun _ old => old) ?_ ?_
  · exact fun _ => .inl
  · intro other present
    by_cases same : other = socket
    · rw [same]
      simpa only [Function.update_self] using kept
    · simp only [Function.update_of_ne same]
      exact .inl present

theorem Inv.dropAcceptor (inv : Inv w) (server : Nat) : Inv (w.dropAcceptor server) := by
  unfold World.dropAcceptor
  split
  · exact inv
  · have queued : Inv (w.enqueue [.keepAcceptor server]) := by
      apply inv.enqueue
      intro functor member id captured
      rw [List.mem_singleton.mp member] at captured
      cases captured
    exact queued.setAcceptor server none (.inr (List.mem_append_right _ (List.mem_singleton_self _)))

theorem Inv.callback (inv : Inv w) (found : w.conns id = some conn) (call : Call) : Inv (w.callback id call) := by
  have pushed := inv.pushOne found (.user (some id)) rfl rfl fun ended => absurd rfl ended
  exact { pushed with }

theorem Inv.reply {reply : Reply} (inv : Inv w) (found : w.conns id = some conn) (kept : Kept conn reply.conn)
    (closing : reply.next = .closing → reply.conn.state = .kDisconnected) : Inv (w.reply id reply) := by
  have present : (w.setConn id reply.conn).conns id = some reply.conn := setConn_self ..
  have queued : Inv ((w.setConn id reply.conn).enqueue (reply.tasks.map (.task id))) := by
    apply (inv.kept found kept).enqueue
    intro functor member other captured
    obtain ⟨task, _, rfl⟩ := List.mem_map.mp member
    cases captured
    exact ⟨reply.conn, present⟩
  unfold World.reply
  cases next : reply.next with
  | done => exact queued
  | message => exact queued.callback present _
  | closing =>
    have pushed := queued.pushOne present (.closing id) rfl rfl fun _ => closing next
    exact pushed.callback present _

/-- `connectDestroyed`, from a functor or from the destructor of the server. -/
theorem Inv.connectDestroyed {d : TcpConnection} (inv : Inv w) (found : w.conns id = some conn)
    (name : d.name = conn.name) (state : d.state = conn.state) (channel : d.channel = conn.channel)
    (callback : d.closeCallback = conn.closeCallback ∨ (d.closeCallback = none ∧ ¬ Lists w id)) :
    Inv (w.connectDestroyed id d) ∧
      ∀ e, (w.connectDestroyed id d).conns id = some e → e.state = .kDisconnected := by
  have sound : Sound d := by
    obtain ⟨agrees, quiet⟩ := inv.sound id conn found
    constructor
    · rw [channel]
      exact agrees
    · rw [state, channel]
      exact quiet
  unfold World.connectDestroyed
  split
  · have present : (w.setConn id d.disconnect).conns id = some d.disconnect := setConn_self ..
    have set := inv.setConn (d := d.disconnect) found name callback (fun _ => rfl) ((Kept.disconnect d).sound sound)
    constructor
    · exact (set.pushOne present (.destroying id) rfl rfl fun _ => rfl).callback present _
    · intro e found'
      cases present.symm.trans found'
      rfl
  · rename_i off
    rw [not_not] at off
    have kept := Kept.release d off
    refine ⟨inv.setConn found (kept.name.trans name) ?_ (fun _ => kept.closed off) (kept.sound sound), ?_⟩
    · rw [kept.closeCallback]
      exact callback
    · intro e found'
      rw [setConn_self] at found'
      cases found'
      exact kept.closed off

theorem Inv.shorten (inv : Inv w) (top : List Frame) {below : List Frame} {rest : List Nat}
    (stack : w.stack = top ++ .destructor (id :: rest) :: below)
    (off : ∀ conn, w.conns id = some conn → conn.state = .kDisconnected) :
    Inv { w with stack := top ++ .destructor rest :: below } := by
  have old : ∀ part other, Among part (top ++ [.destructor (id :: rest)]) other → Among part w.stack other := by
    intro part other among
    rw [stack, List.append_cons]
    exact among_append.mpr (.inl among)
  have shorter : ∀ part : Frame → List Nat, (∀ other ∈ part (.destructor rest),
      other ∈ part (.destructor (id :: rest))) → ∀ other, Among part (top ++ [.destructor rest]) other →
      Among part (top ++ [.destructor (id :: rest)]) other := by
    intro part fewer other among
    rcases among_append.mp among with above | here
    · exact among_append.mpr (.inl above)
    · exact among_append.mpr (.inr (among_single.mpr (fewer other (among_single.mp here))))
  rw [List.append_cons]
  apply inv.restack (top ++ [.destructor (id :: rest)])
  · rw [stack, List.append_cons]
  · intro other among
    have before := shorter Frame.conns (fun _ => List.mem_cons_of_mem id) other among
    exact inv.present other (.inr (.inr (.inl (old _ other before))))
  · exact shorter Frame.leaving fun _ => List.mem_cons_of_mem id
  · intro other conn among found on
    rcases among_append.mp among with above | here
    · exact among_append.mpr (.inl above)
    · rcases List.mem_cons.mp (among_single.mp here) with rfl | later
      · exact absurd (off conn found) on
      · exact among_append.mpr (.inr (among_single.mpr later))
  · intro other conn among found
    exact inv.ended other conn (old _ other (shorter Frame.ended (fun _ none => none) other among)) found

theorem Inv.destructor (inv : Inv w) {rest : List Nat} {below : List Frame}
    (stack : w.stack = .destructor (id :: rest) :: below) (found : w.conns id = some conn) :
    Inv ({ w with stack := .destructor rest :: below }.connectDestroyed id { conn with closeCallback := none }) := by
  have leaves : Among Frame.leaving w.stack id := by
    rw [stack]
    exact ⟨_, List.mem_cons_self, List.mem_cons_self⟩
  obtain ⟨done, off⟩ := inv.connectDestroyed (d := { conn with closeCallback := none }) found rfl rfl rfl
    (.inr ⟨rfl, inv.leaving id leaves⟩)
  unfold World.connectDestroyed at done off ⊢
  split at done
  · rename_i on
    rw [if_pos on] at off ⊢
    exact done.shorten [.user (some id), .destroying id] (by rw [← stack]; rfl) off
  · rename_i on
    rw [if_neg on] at off ⊢
    exact done.shorten [] stack off

end Hvnetpp.Reactor
