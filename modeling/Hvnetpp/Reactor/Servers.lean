import Hvnetpp.Reactor.Ownership

namespace Hvnetpp.Reactor

open Machine Server Tcp

variable {w v : World} {id : Nat} {conn : TcpConnection}

/-- The maps of the servers get fewer entries. What is taken out is disconnected or left to the frames that are
    pushed. -/
theorem Inv.relist (inv : Inv w) (servers : Nat → Option (TcpServer Nat)) (next : Nat) (misplaced : Bool)
    (frames : List Frame) (bound : ∀ owner, next ≤ owner → servers owner = none)
    (fewer : ∀ owner after name id, servers owner = some after → after.connections.lookup name = some id →
      ∃ server, w.servers owner = some server ∧ server.connections.lookup name = some id)
    (present : ∀ id, Among Frame.conns frames id → Lists w id)
    (leaving : ∀ id, Among Frame.leaving frames id → ¬ Lists { w with servers := servers } id)
    (ended : ∀ id, ¬ Among Frame.ended frames id)
    (stays : ∀ id conn, Lists w id → w.conns id = some conn → conn.state ≠ .kDisconnected →
      Lists { w with servers := servers } id ∨ Among Frame.leaving frames id)
    (anchored : ∀ entry ∈ w.pending, ∀ id, entry.1 = .connection id → Lists w id →
      Anchored { w with servers := servers } (.connection id)) :
    Inv { w with servers := servers, nextServer := next, misplaced := misplaced,
                 stack := frames ++ w.stack } := by
  have listed : ∀ id, Lists { w with servers := servers } id → Lists w id := by
    rintro id ⟨owner, after, name, known, listed⟩
    obtain ⟨server, before, found⟩ := fewer owner after name id known listed
    exact ⟨owner, server, name, before, found⟩
  refine { inv with bound := bound, present := ?_, owned := ?_, open_ := ?_, leaving := ?_, ended := ?_, pending := ?_ }
  · rintro id (lists | queued | running | kept)
    · exact inv.present id (.inl (listed id lists))
    · exact inv.present id (.inr (.inl queued))
    · rcases among_append.mp running with new | old
      · exact inv.present id (.inl (present id new))
      · exact inv.present id (.inr (.inr (.inl old)))
    · exact inv.present id (.inr (.inr (.inr kept)))
  · intro owner after name id conn known listed
    obtain ⟨server, before, found⟩ := fewer owner after name id known listed
    exact inv.owned owner server name id conn before found
  · intro id conn found on
    rcases inv.open_ id conn found on with lists | leaves
    · rcases stays id conn lists found on with lists | leaves
      · exact .inl lists
      · exact .inr (among_append.mpr (.inl leaves))
    · exact .inr (among_append.mpr (.inr leaves))
  · intro id leaves lists
    rcases among_append.mp leaves with new | old
    · exact leaving id new lists
    · exact inv.leaving id old (listed id lists)
  · intro id conn ends found
    rcases among_append.mp ends with new | old
    · exact absurd new (ended id)
    · exact inv.ended id conn old found
  · intro entry member
    have before := inv.pending entry member
    cases ref : entry.1 with
    | connection id =>
      rw [ref] at before
      rcases before with lists | others
      · exact anchored entry member id ref lists
      · exact .inr others
    | acceptor server | udp socket | loop =>
      rw [ref] at before
      exact before

theorem Inv.createServer (inv : Inv w) (name : Bytes) :
    Inv { w with servers := Function.update w.servers w.nextServer (some (.create name)),
                 nextServer := w.nextServer + 1 } := by
  have fresh : w.servers w.nextServer = none := inv.bound _ (Nat.le_refl _)
  have same : ∀ id, Lists w id →
      Lists { w with servers := Function.update w.servers w.nextServer (some (.create name)) } id := by
    rintro id ⟨owner, server, key, known, listed⟩
    refine ⟨owner, server, key, ?_, listed⟩
    have differs : owner ≠ w.nextServer := by
      rintro rfl
      rw [fresh] at known
      cases known
    exact (Function.update_of_ne differs ..).trans known
  refine inv.relist _ _ w.misplaced [] ?_ ?_ ?_ ?_ ?_ ?_ ?_
  · intro owner new
    rw [Function.update_of_ne (by omega)]
    exact inv.bound owner (by omega)
  · intro owner after key id known listed
    by_cases created : owner = w.nextServer
    · rw [created, Function.update_self] at known
      cases known
      cases listed
    · rw [Function.update_of_ne created] at known
      exact ⟨after, known, listed⟩
  · exact fun id among => absurd among not_among_nil
  · exact fun id among => absurd among not_among_nil
  · exact fun id => not_among_nil
  · exact fun id conn listed _ _ => .inl (same id listed)
  · exact fun entry _ id _ listed => .inl (same id listed)

/-- `removeConnectionInLoop` takes out the connection it is called for, which a functor keeps. -/
theorem Inv.unlist {owner : Nat} {server : TcpServer Nat} (inv : Inv w) (misplaced : Bool)
    (found : w.conns id = some conn) (off : conn.state = .kDisconnected)
    (own : conn.closeCallback = some owner) (known : w.servers owner = some server) (queued : Queued w id) :
    Inv { w with
      servers := Function.update w.servers owner (some (server.removeConnectionInLoop conn.name))
      misplaced := misplaced } := by
  have others : ∀ other, Lists w other → other = id ∨ Lists { w with
      servers := Function.update w.servers owner (some (server.removeConnectionInLoop conn.name)) } other := by
    rintro other ⟨lister, before, key, knownBefore, listed⟩
    by_cases same : lister = owner
    · subst same
      cases known.symm.trans knownBefore
      by_cases erased : key = conn.name
      · obtain ⟨d, present⟩ := inv.present other (.inl ⟨lister, server, key, known, listed⟩)
        obtain ⟨named, owns⟩ := inv.owned lister server key other d known listed present
        exact .inl (inv.names lister other id d conn present found owns own (named.trans erased))
      · refine .inr ⟨lister, server.removeConnectionInLoop conn.name, key, Function.update_self .., ?_⟩
        exact (AList.lookup_erase_ne erased).trans listed
    · exact .inr ⟨lister, before, key, (Function.update_of_ne same ..).trans knownBefore, listed⟩
  refine inv.relist _ w.nextServer misplaced [] ?_ ?_ ?_ ?_ ?_ ?_ ?_
  · intro lister new
    rw [Function.update_of_ne]
    · exact inv.bound lister new
    · rintro rfl
      rw [inv.bound lister new] at known
      cases known
  · intro lister after key other knownAfter listed
    by_cases same : lister = owner
    · rw [same, Function.update_self] at knownAfter
      cases knownAfter
      refine ⟨server, same ▸ known, ?_⟩
      by_cases erased : key = conn.name
      · rw [erased, TcpServer.removeConnectionInLoop, AList.lookup_erase] at listed
        cases listed
      · exact (AList.lookup_erase_ne erased).symm.trans listed
    · rw [Function.update_of_ne same] at knownAfter
      exact ⟨after, knownAfter, listed⟩
  · exact fun other among => absurd among not_among_nil
  · exact fun other among => absurd among not_among_nil
  · exact fun other => not_among_nil
  · intro other d listed present on
    rcases others other listed with rfl | listed
    · cases found.symm.trans present
      exact absurd off on
    · exact .inl listed
  · intro entry _ other _ listed
    rcases others other listed with rfl | listed
    · exact .inr (.inl queued)
    · exact .inl listed

theorem Inv.closeCallback (inv : Inv w) (found : w.conns id = some conn) (off : conn.state = .kDisconnected) :
    Inv (w.closeCallback id conn) := by
  unfold World.closeCallback
  split
  · exact inv
  · rename_i owner own
    split
    · exact inv
    · rename_i server known
      have queued : Inv (w.enqueue [.connectDestroyed id]) := by
        apply inv.enqueue
        intro functor member other captured
        rw [List.mem_singleton.mp member] at captured
        cases captured
        exact ⟨conn, found⟩
      exact queued.unlist _ found off own known
        ⟨_, List.mem_append_right _ (List.mem_singleton_self _), rfl⟩

/-- No connection of the server that is pending in the batch depends on the map of the server. -/
def Spared (w : World) (owner : Nat) : Prop :=
  ∀ entry ∈ w.pending, ∀ id < w.nextConn, entry.1 = .connection id → w.lists owner id = true →
    w.queued id = true ∨ id ∈ w.user

theorem Inv.destroyServer {owner : Nat} {server : TcpServer Nat} (inv : Inv w)
    (known : w.servers owner = some server) (spared : Spared w owner) : Inv (w.destroyServer owner server) := by
  have others : ∀ id, Lists w id → (∃ name, server.connections.lookup name = some id) ∨
      Lists { w with servers := Function.update w.servers owner none } id := by
    rintro id ⟨lister, before, name, knownBefore, listed⟩
    by_cases same : lister = owner
    · subst same
      cases known.symm.trans knownBefore
      exact .inl ⟨name, listed⟩
    · exact .inr ⟨lister, before, name, (Function.update_of_ne same ..).trans knownBefore, listed⟩
  have fewer : ∀ lister after name id, Function.update w.servers owner none lister = some after →
      after.connections.lookup name = some id → lister ≠ owner ∧ w.servers lister = some after := by
    intro lister after name id knownAfter _
    by_cases same : lister = owner
    · rw [same, Function.update_self] at knownAfter
      cases knownAfter
    · rw [Function.update_of_ne same] at knownAfter
      exact ⟨same, knownAfter⟩
  have moved : Inv { w with
      servers := Function.update w.servers owner none
      stack := [.destructor (server.connections.entries.map Sigma.snd)] ++ w.stack } := by
    refine inv.relist _ w.nextServer w.misplaced _ ?_ ?_ ?_ ?_ ?_ ?_ ?_
    · intro lister new
      by_cases same : lister = owner
      · rw [same, Function.update_self]
      · rw [Function.update_of_ne same, inv.bound lister new]
    · intro lister after name id knownAfter listed
      exact ⟨after, (fewer lister after name id knownAfter listed).2, listed⟩
    · intro id among
      obtain ⟨name, listed⟩ := (mem_values server).mp (among_single.mp among)
      exact ⟨owner, server, name, known, listed⟩
    · rintro id among ⟨lister, after, key, knownAfter, listedAfter⟩
      obtain ⟨name, listed⟩ := (mem_values server).mp (among_single.mp among)
      obtain ⟨differs, knownBefore⟩ := fewer lister after key id knownAfter listedAfter
      obtain ⟨conn, present⟩ := inv.present id (.inl ⟨owner, server, name, known, listed⟩)
      have here := (inv.owned owner server name id conn known listed present).2
      have there := (inv.owned lister after key id conn knownBefore listedAfter present).2
      exact differs (Option.some.inj (there.symm.trans here))
    · intro id among
      cases among_single.mp among
    · intro id conn listed _ _
      rcases others id listed with taken | listed
      · exact .inr (among_single.mpr ((mem_values server).mpr taken))
      · exact .inl listed
    · intro entry member id ref listed
      rcases others id listed with ⟨name, found⟩ | listed
      · obtain ⟨conn, present⟩ := inv.present id (.inl listed)
        have kept := spared entry member id (inv.lt_next present) ref ((lists_iff owner).mpr ⟨server, name, known, found⟩)
        rw [queued_iff] at kept
        exact .inr kept
      · exact .inl listed
  unfold World.destroyServer World.dropAcceptor
  split
  · exact moved
  · have queued := moved.enqueue [.keepAcceptor owner] (by simp [Functor.conn])
    exact queued.setAcceptor owner none (.inr (List.mem_append_right _ (List.mem_singleton_self _)))

theorem Inv.absent (inv : Inv w) {part : Frame → List Nat} (within : ∀ frame, ∀ id ∈ part frame, id ∈ frame.conns)
    (gone : w.conns id = none) : ¬ Among part w.stack id := by
  rintro ⟨frame, member, here⟩
  obtain ⟨conn, found⟩ := inv.present id (.inr (.inr (.inl ⟨frame, member, within frame id here⟩)))
  rw [gone] at found
  cases found

/-- The server gives its next connection a name that no other connection of it has. -/
def Unused (w : World) (owner : Nat) : Prop :=
  ∀ server ∈ w.servers owner, ∀ id < w.nextConn, ∀ conn ∈ w.conns id,
    conn.closeCallback = some owner → conn.name ≠ server.nextName

section NewConnection

variable {owner sockfd : Nat} {server : TcpServer Nat}

def World.entered (w : World) (owner sockfd : Nat) (server : TcpServer Nat) : World :=
  { w with
    servers := Function.update w.servers owner (some (server.newConnection w.nextConn))
    nextConn := w.nextConn + 1 }.setConn w.nextConn
      { TcpConnection.create server.nextName sockfd with closeCallback := some owner }.connectEstablished

theorem entered_lookup (known : w.servers owner = some server) {lister : Nat} {after : TcpServer Nat} {key : Bytes}
    (knownAfter : (w.entered owner sockfd server).servers lister = some after)
    (listed : after.connections.lookup key = some id) :
    (id = w.nextConn ∧ lister = owner ∧ key = server.nextName) ∨
      ∃ before, w.servers lister = some before ∧ before.connections.lookup key = some id := by
  by_cases same : lister = owner
  · subst same
    cases (Function.update_self ..).symm.trans knownAfter
    by_cases inserted : key = server.nextName
    · rw [inserted, TcpServer.newConnection, AList.lookup_insert] at listed
      exact .inl ⟨(Option.some.inj listed).symm, rfl, inserted⟩
    · exact .inr ⟨server, known, (AList.lookup_insert_ne inserted).symm.trans listed⟩
  · exact .inr ⟨after, (Function.update_of_ne same ..).symm.trans knownAfter, listed⟩

theorem Inv.entered_lists (inv : Inv w) (known : w.servers owner = some server) (unused : Unused w owner)
    (lists : Lists w id) : Lists (w.entered owner sockfd server) id := by
  obtain ⟨conn, found⟩ := inv.present id (.inl lists)
  obtain ⟨lister, before, key, knownBefore, listed⟩ := lists
  by_cases same : lister = owner
  · subst same
    cases known.symm.trans knownBefore
    obtain ⟨named, owns⟩ := inv.owned lister server key id conn known listed found
    have kept : key ≠ server.nextName := by
      rw [← named]
      exact unused server known id (inv.lt_next found) conn found owns
    exact ⟨lister, _, key, Function.update_self .., (AList.lookup_insert_ne kept).trans listed⟩
  · exact ⟨lister, before, key, (Function.update_of_ne same ..).trans knownBefore, listed⟩

theorem entered_conns {d : TcpConnection} (present : (w.entered owner sockfd server).conns id = some d) :
    (id = w.nextConn ∧ d.name = server.nextName ∧ d.closeCallback = some owner ∧ Sound d) ∨
      (id ≠ w.nextConn ∧ w.conns id = some d) := by
  rcases setConn_conns present with ⟨new, rfl⟩ | old
  · have sound := Sound.connectEstablished server.nextName sockfd
    exact .inl ⟨new, rfl, rfl, sound.agrees, sound.quiet⟩
  · exact .inr old

theorem Inv.entered (inv : Inv w) (known : w.servers owner = some server) (unused : Unused w owner) :
    Inv (w.entered owner sockfd server) := by
  have absent : w.conns w.nextConn = none := inv.fresh _ (Nat.le_refl _)
  have free : ∀ (id : Nat) (d e : TcpConnection), w.conns id = some e → e.closeCallback = some owner → d.name = server.nextName →
      d.name ≠ e.name := by
    intro id d e old own named same
    exact unused server known id (inv.lt_next old) e old own (same.symm.trans named)
  constructor
  · intro lister new
    refine (Function.update_of_ne ?_ ..).trans (inv.bound lister new)
    rintro rfl
    rw [inv.bound lister new] at known
    cases known
  · intro id new
    have later : w.nextConn + 1 ≤ id := new
    exact (setConn_other _ _ (by omega)).trans (inv.fresh id (by omega))
  · intro id holds
    by_cases own : id = w.nextConn
    · rw [own]
      exact ⟨_, setConn_self ..⟩
    · obtain ⟨conn, found⟩ : ∃ conn, w.conns id = some conn := by
        apply inv.present
        rcases holds with ⟨lister, after, key, knownAfter, listed⟩ | others
        · rcases entered_lookup known knownAfter listed with ⟨new, _, _⟩ | ⟨before, knownBefore, old⟩
          · exact absurd new own
          · exact .inl ⟨lister, before, key, knownBefore, old⟩
        · exact .inr others
      exact ⟨conn, (setConn_other _ _ own).trans found⟩
  · intro lister after key id d knownAfter listed present
    rcases entered_lookup known knownAfter listed with ⟨rfl, rfl, rfl⟩ | ⟨before, knownBefore, old⟩
    · rcases entered_conns present with ⟨_, named, owns, _⟩ | ⟨differs, _⟩
      · exact ⟨named, owns⟩
      · exact absurd rfl differs
    · rcases entered_conns present with ⟨rfl, _, _, _⟩ | ⟨_, found⟩
      · obtain ⟨conn, found⟩ := inv.present _ (.inl ⟨lister, before, key, knownBefore, old⟩)
        rw [absent] at found
        cases found
      · exact inv.owned lister before key id d knownBefore old found
  · intro id d present
    rcases entered_conns present with ⟨_, _, _, sound⟩ | ⟨_, found⟩
    · exact sound
    · exact inv.sound id d found
  · intro id d present on
    rcases entered_conns present with ⟨rfl, _, _, _⟩ | ⟨_, found⟩
    · exact .inl ⟨owner, _, server.nextName, Function.update_self .., AList.lookup_insert ..⟩
    · rcases inv.open_ id d found on with lists | leaves
      · exact .inl (inv.entered_lists known unused lists)
      · exact .inr leaves
  · rintro id leaves ⟨lister, after, key, knownAfter, listed⟩
    rcases entered_lookup known knownAfter listed with ⟨rfl, _, _⟩ | ⟨before, knownBefore, old⟩
    · exact inv.absent Frame.leaving_subset absent leaves
    · exact inv.leaving id leaves ⟨lister, before, key, knownBefore, old⟩
  · intro id d ends present
    rcases entered_conns present with ⟨rfl, _, _, _⟩ | ⟨_, found⟩
    · exact absurd ends (inv.absent Frame.ended_subset absent)
    · exact inv.ended id d ends found
  · intro lister first second c e presentC presentE ownC ownE same
    rcases entered_conns presentC with ⟨rfl, named, owns, _⟩ | ⟨_, oldC⟩
    · rcases entered_conns presentE with ⟨rfl, _, _, _⟩ | ⟨_, oldE⟩
      · rfl
      · cases owns.symm.trans ownC
        exact absurd same (free second c e oldE ownE named)
    · rcases entered_conns presentE with ⟨rfl, named, owns, _⟩ | ⟨_, oldE⟩
      · cases owns.symm.trans ownE
        exact absurd same.symm (free first e c oldC ownC named)
      · exact inv.names lister first second c e oldC oldE ownC ownE same
  · intro entry member
    exact (inv.pending entry member).mono (fun _ => inv.entered_lists known unused) (fun _ old => old)
      (fun _ old => old) (fun _ => .inl) (fun _ => .inl)
  · exact inv.unharmed

theorem Inv.newConnection (inv : Inv w) (unused : Unused w owner) : Inv (w.newConnection owner sockfd) := by
  unfold World.newConnection
  split
  · exact inv
  · rename_i server known
    exact (inv.entered known unused).callback (setConn_self ..) .connected

end NewConnection

end Hvnetpp.Reactor
