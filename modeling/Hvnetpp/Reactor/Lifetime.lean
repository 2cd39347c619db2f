import Hvnetpp.Reactor.Servers

namespace Hvnetpp.Reactor

open Machine Server Tcp

variable {w v : World} {id : Nat} {conn : TcpConnection}

def World.accepting (w : World) : Option Nat :=
  match w.stack with
  | .accepting server :: _ => some server
  | _ => none

/-- The pointer the user gives up is not the last one to a connection that is pending in the batch. -/
def Replaceable (w : World) (id : Nat) : Prop :=
  ∀ entry ∈ w.pending, entry.1 = .connection id → w.listed id = true ∨ w.queued id = true ∨ id ∈ w.user.erase id

/-- A server is destroyed, and a pointer given up, only while others keep the connections pending in the batch;
    names of connections are not used twice. -/
def Sheltered (w : World) : Action → Prop
  | .call (.destroyServer owner) => Spared w owner
  | .release id => Replaceable w id
  | .resume _ => ∀ owner ∈ w.accepting, Unused w owner
  | .poll _ | .dispatch | .finish | .drain _ _ | .sendElsewhere _ _ | .shutdownElsewhere _ | .call .ret
  | .call (.hold _) | .call (.send _ _ _) | .call (.sendBuffer _ _ _) | .call (.shutdown _) | .call .queueInLoop
  | .call (.createServer _) | .call (.start _) | .call .createUdp | .call (.startReceive _)
  | .call (.stopReceive _) | .call (.destroyUdp _) => True

instance (w : World) (owner : Nat) : Decidable (Spared w owner) :=
  inferInstanceAs (Decidable (∀ entry ∈ w.pending, ∀ id < w.nextConn, entry.1 = .connection id →
    w.lists owner id = true → w.queued id = true ∨ id ∈ w.user))

instance (w : World) (id : Nat) : Decidable (Replaceable w id) :=
  inferInstanceAs (Decidable (∀ entry ∈ w.pending, entry.1 = .connection id →
    w.listed id = true ∨ w.queued id = true ∨ id ∈ w.user.erase id))

instance (w : World) (owner : Nat) : Decidable (Unused w owner) :=
  inferInstanceAs (Decidable (∀ server ∈ w.servers owner, ∀ id < w.nextConn, ∀ conn ∈ w.conns id,
    conn.closeCallback = some owner → conn.name ≠ server.nextName))

instance (w : World) (action : Action) : Decidable (Sheltered w action) :=
  match action with
  | .call (.destroyServer owner) => inferInstanceAs (Decidable (Spared w owner))
  | .release id => inferInstanceAs (Decidable (Replaceable w id))
  | .resume _ => inferInstanceAs (Decidable (∀ owner ∈ w.accepting, Unused w owner))
  | .poll _ | .dispatch | .finish | .drain _ _ | .sendElsewhere _ _ | .shutdownElsewhere _ | .call .ret
  | .call (.hold _) | .call (.send _ _ _) | .call (.sendBuffer _ _ _) | .call (.shutdown _) | .call .queueInLoop
  | .call (.createServer _) | .call (.start _) | .call .createUdp | .call (.startReceive _)
  | .call (.stopReceive _) | .call (.destroyUdp _) => isTrue trivial

theorem Inv.setPhase (inv : Inv w) (phase : Phase)
    (pending : ∀ entry ∈ { w with phase := phase }.pending, Anchored w entry.1) : Inv { w with phase := phase } := by
  refine { inv with pending := fun entry member => ?_ }
  exact (pending entry member).mono (fun _ old => old) (fun _ old => old) (fun _ old => old) (fun _ => .inl)
    (fun _ => .inl)

theorem Inv.alive (inv : Inv w) {ref : ChannelRef} (anchored : Anchored w ref) : w.alive ref = true := by
  cases ref with
  | connection id =>
    obtain ⟨conn, found⟩ := inv.present id anchored.holds
    simp only [World.alive, found, Option.isSome_some]
  | acceptor server | udp socket =>
    simp only [World.alive, Bool.or_eq_true, List.contains_iff_mem]
    exact anchored
  | loop => rfl

theorem Inv.registered (inv : Inv w) (idle : w.stack = []) {ref : ChannelRef} (reported : w.registered ref = true) :
    Anchored w ref := by
  cases ref with
  | connection id =>
    obtain ⟨interest, bound⟩ := Option.isSome_iff_exists.mp reported
    obtain ⟨conn, found, listens⟩ := Option.bind_eq_some_iff.mp bound
    have sound := inv.sound id conn found
    have wants : conn.channel.events ≠ kNoneEvent := by
      apply sound.agrees.registered_iff.mp
      rw [listens]
      exact Option.some_ne_none _
    have listed := inv.open_ id conn found fun off => wants (sound.quiet off)
    rw [idle] at listed
    exact .inl (listed.resolve_right not_among_nil)
  | acceptor server =>
    obtain ⟨interest, bound⟩ := Option.isSome_iff_exists.mp reported
    obtain ⟨channel, found, _⟩ := Option.bind_eq_some_iff.mp bound
    exact .inl (by rw [found]; rfl)
  | udp socket =>
    obtain ⟨interest, bound⟩ := Option.isSome_iff_exists.mp reported
    obtain ⟨channel, found, _⟩ := Option.bind_eq_some_iff.mp bound
    exact .inl (by rw [found]; rfl)
  | loop => trivial

theorem Inv.pushUser (inv : Inv w) : Inv (w.push (.user none)) :=
  inv.push _ rfl (fun _ member => nomatch member) (fun _ member => nomatch member)

theorem Inv.handleEvent (inv : Inv w) {ref : ChannelRef} (revents : Revents) (anchored : Anchored w ref) :
    Inv (w.handleEvent ref revents) := by
  unfold World.handleEvent
  rw [if_pos (inv.alive anchored)]
  cases ref with
  | connection id =>
    dsimp only
    split
    · exact inv
    · rename_i conn found
      have pushed := inv.pushOne found (.event id revents.callbacks) rfl rfl fun ended => absurd rfl ended
      split
      · exact pushed.reply found (.handleClose conn) fun _ => rfl
      · exact pushed
  | acceptor server =>
    dsimp only
    split
    · exact inv.push _ rfl (fun _ member => nomatch member) (fun _ member => nomatch member)
    · exact inv
  | udp socket =>
    dsimp only
    split
    · exact inv.pushUser
    · exact inv
  | loop => exact inv.pushUser

theorem runCallback_kept (conn : TcpConnection) (io : Io) (next : EventCallback) :
    Kept conn (World.runCallback conn io next).conn := by
  cases next with
  | error => exact .handleSocketError conn _
  | read => exact .handleRead conn _
  | write => exact .handleWrite conn _

theorem runCallback_closes (conn : TcpConnection) (io : Io) (event : EventCallback)
    (next : (World.runCallback conn io event).next = .closing) :
    (World.runCallback conn io event).conn.state = .kDisconnected := by
  cases event with
  | error => exact Legal.closes (.handleSocketError conn _) next
  | read => exact handleRead_closes _ next
  | write => exact Legal.closes (.handleWrite conn _) next

theorem Inv.resume (inv : Inv w) {io : Io} (unused : ∀ owner ∈ w.accepting, Unused w owner)
    (taken : w.resume io = some v) : Inv v := by
  unfold World.resume at taken
  split at taken
  · rename_i stack
    cases taken
    exact inv.pop stack rfl
  · rename_i id next rest below stack
    obtain ⟨conn, found, rfl⟩ := Option.map_eq_some_iff.mp taken
    have turned : Inv { w with stack := .event id rest :: below } := by
      have pushed := (inv.pop stack rfl).pushOne found (.event id rest) rfl rfl fun ended => absurd rfl ended
      simpa only [World.push, World.pop, stack, List.tail_cons] using pushed
    exact turned.reply found (runCallback_kept conn io next) (runCallback_closes conn io next)
  · rename_i id below stack
    obtain ⟨conn, found, rfl⟩ := Option.map_eq_some_iff.mp taken
    have off := inv.ended id conn ⟨_, stack ▸ List.mem_cons_self, List.mem_cons_self⟩ found
    exact (inv.pop stack rfl).closeCallback found off
  · rename_i id below stack
    obtain ⟨conn, found, rfl⟩ := Option.map_eq_some_iff.mp taken
    have off := inv.ended id conn ⟨_, stack ▸ List.mem_cons_self, List.mem_cons_self⟩ found
    exact (inv.pop stack rfl).kept found (.release conn off)
  · rename_i stack
    cases taken
    exact inv.pop stack rfl
  · rename_i id rest below stack
    obtain ⟨conn, found, rfl⟩ := Option.map_eq_some_iff.mp taken
    exact inv.destructor stack found
  · rename_i server below stack
    split at taken
    · cases taken
      exact inv.newConnection (unused server (by rw [World.accepting, stack]; rfl))
    · cases taken
      exact (inv.pop stack rfl).dropAcceptor server
  · cases taken
  · cases taken

theorem Inv.callConn (inv : Inv w) {operation : TcpConnection → Reply}
    (kept : ∀ conn, Kept conn (operation conn).conn)
    (closes : ∀ conn, (operation conn).next = .closing → (operation conn).conn.state = .kDisconnected)
    (taken : w.callConn id operation = some v) : Inv v := by
  unfold World.callConn at taken
  split at taken
  · obtain ⟨conn, found, rfl⟩ := Option.map_eq_some_iff.mp taken
    exact inv.reply found (kept conn) (closes conn)
  · cases taken

theorem Inv.hold (inv : Inv w) (accessible : w.accessible id = true) : Inv { w with user := id :: w.user } := by
  have holds : Holds w id := by
    simp only [World.accessible, Bool.or_eq_true, List.contains_iff_mem] at accessible
    rcases accessible with kept | running
    · exact .inr (.inr (.inr kept))
    · exact .inr (.inr (.inl ⟨_, running, List.mem_singleton_self id⟩))
  refine { inv with present := ?_, pending := ?_ }
  · rintro other (listed | queued | running | kept)
    · exact inv.present other (.inl listed)
    · exact inv.present other (.inr (.inl queued))
    · exact inv.present other (.inr (.inr (.inl running)))
    · rcases List.mem_cons.mp kept with rfl | old
      · exact inv.present other holds
      · exact inv.present other (.inr (.inr (.inr old)))
  · intro entry member
    exact (inv.pending entry member).mono (fun _ old => old) (fun _ old => old)
      (fun _ old => List.mem_cons_of_mem id old) (fun _ => .inl) (fun _ => .inl)

theorem Inv.userCall (inv : Inv w) {frame : Option Nat} {below : List Frame} (stack : w.stack = .user frame :: below)
    {call : UserCall} (spared : ∀ owner, call = .destroyServer owner → Spared w owner)
    (taken : w.userCall call = some v) : Inv v := by
  cases call <;> simp only [World.userCall] at taken
  case ret =>
    cases taken
    exact inv.pop stack rfl
  case hold id =>
    split at taken
    · rename_i accessible
      cases taken
      exact inv.hold accessible
    · cases taken
  case send id data result =>
    exact inv.callConn (fun conn => .send conn data result) (fun conn => (Legal.send conn data result).closes) taken
  case sendBuffer id data result =>
    exact inv.callConn (fun conn => .sendBuffer conn data result)
      (fun conn => (Legal.sendBuffer conn data result).closes) taken
  case shutdown id => exact inv.callConn Kept.shutdown (fun _ next => by cases next) taken
  case queueInLoop =>
    cases taken
    exact inv.enqueue _ (by simp [Functor.conn])
  case createServer name =>
    cases taken
    exact inv.createServer name
  case start server =>
    split at taken
    · cases taken
      exact inv.setAcceptor server _ (.inl rfl)
    · cases taken
  case destroyServer owner =>
    obtain ⟨server, known, rfl⟩ := Option.map_eq_some_iff.mp taken
    exact inv.destroyServer known (spared owner rfl)
  case createUdp =>
    cases taken
    exact inv.setUdp w.nextUdp (w.nextUdp + 1) _ (.inl rfl)
  case startReceive socket | stopReceive socket =>
    obtain ⟨channel, _, rfl⟩ := Option.map_eq_some_iff.mp taken
    exact inv.setUdp socket w.nextUdp _ (.inl rfl)
  case destroyUdp socket =>
    split at taken
    · cases taken
      have queued := inv.enqueue [.keepUdp socket] (by simp [Functor.conn])
      exact queued.setUdp socket w.nextUdp none (.inr (List.mem_append_right _ (List.mem_singleton_self _)))
    · cases taken

theorem Inv.run (inv : Inv w) {functor : Functor} {io : Io}
    (present : ∀ id, functor.conn = some id → ∃ conn, w.conns id = some conn)
    (taken : w.run io functor = some v) : Inv v := by
  cases functor <;> simp only [World.run] at taken
  case connectDestroyed id =>
    obtain ⟨conn, found, rfl⟩ := Option.map_eq_some_iff.mp taken
    exact (inv.connectDestroyed found rfl rfl rfl (.inl rfl)).1
  case send id data =>
    obtain ⟨conn, found, rfl⟩ := Option.map_eq_some_iff.mp taken
    exact inv.reply found (.sendBuffer conn data _) (Legal.sendBuffer conn data _).closes
  case shutdown id =>
    obtain ⟨conn, found, rfl⟩ := Option.map_eq_some_iff.mp taken
    exact inv.kept found (.shutdown conn)
  case task id task =>
    cases taken
    obtain ⟨conn, found⟩ := present id rfl
    exact inv.pushOne found (.user (some id)) rfl rfl fun ended => absurd rfl ended
  case keepAcceptor server | keepUdp socket =>
    cases taken
    exact inv
  case user =>
    cases taken
    exact inv.pushUser

theorem Inv.elsewhere (inv : Inv w) {functor : Functor} (captures : functor.conn = some id)
    (taken : w.elsewhere id functor = some v) : Inv v := by
  unfold World.elsewhere at taken
  split at taken
  · obtain ⟨conn, found, rfl⟩ := Option.map_eq_some_iff.mp taken
    split
    · apply inv.enqueue
      intro queued member other captured
      rw [List.mem_singleton.mp member, captures] at captured
      cases captured
      exact ⟨conn, found⟩
    · exact inv
  · cases taken

theorem Inv.dequeue (inv : Inv w) (functor : Functor) (idle : w.pending = []) :
    Inv { w with queue := w.queue.erase functor } := by
  refine { inv with present := ?_, pending := ?_ }
  · rintro id (listed | ⟨queued, member, captured⟩ | others)
    · exact inv.present id (.inl listed)
    · exact inv.present id (.inr (.inl ⟨queued, List.mem_of_mem_erase member, captured⟩))
    · exact inv.present id (.inr (.inr others))
  · intro entry member
    have none : entry ∈ w.pending := member
    rw [idle] at none
    cases none

theorem Inv.release (inv : Inv w) (replaceable : Replaceable w id) :
    Inv { w with user := w.user.erase id } := by
  refine { inv with present := ?_, pending := ?_ }
  · rintro other (listed | queued | running | kept)
    · exact inv.present other (.inl listed)
    · exact inv.present other (.inr (.inl queued))
    · exact inv.present other (.inr (.inr (.inl running)))
    · exact inv.present other (.inr (.inr (.inr (List.mem_of_mem_erase kept))))
  · intro entry member
    have before := inv.pending entry member
    cases ref : entry.1 with
    | connection other =>
      by_cases same : other = id
      · subst same
        have others := replaceable entry member ref
        rw [listed_iff inv.bound, queued_iff] at others
        exact others
      · rw [ref] at before
        rcases before with listed | queued | kept
        · exact .inl listed
        · exact .inr (.inl queued)
        · exact .inr (.inr ((List.mem_erase_of_ne same).mpr kept))
    | acceptor server | udp socket | loop =>
      rw [ref] at before
      exact before

theorem Inv.move (inv : Inv w) {action : Action} (sheltered : Sheltered w action) (taken : w.move action = some v) :
    Inv v := by
  cases action <;> simp only [World.move] at taken
  case poll batch =>
    split at taken
    · rename_i ready
      obtain ⟨idle, _, reported⟩ := ready
      cases taken
      apply inv.setPhase
      intro entry member
      exact inv.registered idle (List.all_eq_true.mp reported entry member)
    · cases taken
  case dispatch =>
    split at taken
    · rename_i ref revents rest _ phase
      cases taken
      have pending : w.pending = (ref, revents) :: rest := by rw [World.pending, phase]
      have turned : Inv { w with phase := .dispatching rest } := by
        apply inv.setPhase
        intro entry member
        exact inv.pending entry (pending ▸ List.mem_cons_of_mem _ member)
      have anchored := inv.pending (ref, revents) (pending ▸ List.mem_cons_self)
      exact turned.handleEvent revents (anchored.mono (fun _ old => old) (fun _ old => old) (fun _ old => old)
        (fun _ => .inl) (fun _ => .inl))
    · cases taken
  case resume io => exact inv.resume sheltered taken
  case call call =>
    split at taken
    · rename_i stack
      refine inv.userCall stack ?_ taken
      rintro owner rfl
      exact sheltered
    · cases taken
  case finish =>
    split at taken
    · cases taken
      exact inv.setPhase _ fun _ member => nomatch member
    · cases taken
      exact inv.setPhase _ fun _ member => nomatch member
    · cases taken
  case drain functor io =>
    split at taken
    · rename_i ready
      obtain ⟨_, phase, queued⟩ := ready
      apply (inv.dequeue functor (by rw [World.pending, phase])).run _ taken
      exact fun id captured => inv.present id (.inr (.inl ⟨functor, queued, captured⟩))
    · cases taken
  case release id =>
    split at taken
    · cases taken
      exact inv.release sheltered
    · cases taken
  case sendElsewhere id data => exact inv.elsewhere rfl taken
  case shutdownElsewhere id => exact inv.elsewhere rfl taken

theorem Inv.initial : Inv World.initial where
  bound _ _ := rfl
  fresh _ _ := rfl
  present := by
    rintro id (⟨_, _, _, known, _⟩ | ⟨_, member, _⟩ | running | kept)
    · cases known
    · cases member
    · cases among_single.mp running
    · cases kept
  owned _ _ _ _ _ known := nomatch known
  sound _ _ found := nomatch found
  open_ _ _ found := nomatch found
  leaving _ among := nomatch among_single.mp among
  ended _ _ _ found := nomatch found
  names _ _ _ _ _ found := nomatch found
  pending _ member := nomatch member
  unharmed := rfl

theorem Inv.step (inv : Inv w) {action : Action} (sheltered : Sheltered w action)
    (taken : Reactor.step w action = some v) : Inv v := by
  obtain ⟨moved, move, rfl⟩ := Option.map_eq_some_iff.mp taken
  exact (inv.move sheltered move).collect

def destroyed : List Action :=
  let go : Action := .resume ⟨.data [], .wrote 0, 0, none⟩
  [go, .call .ret, go, go, .call .ret, go, go, .call .ret, go]

end Hvnetpp.Reactor
