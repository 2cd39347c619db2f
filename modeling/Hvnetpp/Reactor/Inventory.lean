import Mathlib.Algebra.BigOperators.Intervals
import Mathlib.Algebra.Order.BigOperators.Group.Finset
import Mathlib.Data.List.Perm.Basic
import Hvnetpp.Reactor.Ledger
import Hvnetpp.Server.Custody

namespace Hvnetpp.Ledger

open Machine Server Tcp Reactor

variable {s : State} {w moved : World} {fd : Nat}

/-- How many connections hold the descriptor. -/
def connHolders (w : World) (fd : Nat) : Nat := ∑ id ∈ Finset.range w.nextConn, held (w.descriptor id) fd

def heldBy (acceptor : Option Acceptor) (fd : Nat) : Nat := acceptor.elim 0 fun acceptor => acceptor.held fd

def acceptorHolders (s : State) (fd : Nat) : Nat :=
  ∑ server ∈ Finset.range s.world.nextServer, heldBy (s.acceptors server) fd

def Job.held (fd : Nat) : Job → Nat
  | .cleanup _ acceptSocket idleFd => Server.held acceptSocket fd + Server.held idleFd fd
  | .start _ | .keep _ => 0

def jobHolders (jobs : List Job) (fd : Nat) : Nat := (jobs.map (Job.held fd)).sum

def State.holders (s : State) (fd : Nat) : Nat := connHolders s.world fd + acceptorHolders s fd + jobHolders s.jobs fd

/-- The books of the servers. `except` is a server whose acceptor may have lost its last holder, and `hand` counts
    the descriptors that are between two holders. -/
structure Inventory (except : Option Nat) (hand : Nat → Nat) (s : State) : Prop where
  accounted : Accounted s.world
  balanced : Balanced s.descriptors fun fd => s.holders fd + hand fd
  timely : s.early = false
  known : ∀ server acceptor, s.acceptors server = some acceptor → server < s.world.nextServer ∧ acceptor.Shaped
  anchored : ∀ server, (s.acceptors server).isSome = true → except ≠ some server → s.anchored server = true
  cleanups : ∀ channel acceptSocket idleFd, .cleanup channel acceptSocket idleFd ∈ s.jobs →
    ∀ found ∈ channel, found = Acceptor.newChannel ∧ acceptSocket.isSome = true
  kept : ∀ channel, .keep channel ∈ s.jobs → channel.registered = false

def empty (_ : Nat) : Nat := 0

theorem Inventory.initial : Inventory none empty State.initial where
  accounted := .initial
  balanced := Balanced.none
  timely := rfl
  known := fun _ _ found => nomatch found
  anchored := fun _ found => nomatch found
  cleanups := fun _ _ _ member => nomatch member
  kept := fun _ member => nomatch member

/-- A sum in which one term changes. -/
theorem sum_range_change {f g : Nat → Nat} {n i : Nat} (inside : i < n) (others : ∀ j, j ≠ i → g j = f j) :
    ∑ j ∈ Finset.range n, g j + f i = ∑ j ∈ Finset.range n, f j + g i := by
  have member : i ∈ Finset.range n := Finset.mem_range.mpr inside
  have rest : ∑ j ∈ (Finset.range n).erase i, g j = ∑ j ∈ (Finset.range n).erase i, f j :=
    Finset.sum_congr rfl fun j other => others j (Finset.ne_of_mem_erase other)
  rw [← Finset.add_sum_erase _ f member, ← Finset.add_sum_erase _ g member, rest]
  omega

/-- What a step no longer holds for a connection it has closed. -/
theorem connHolders_closed (nextConn : moved.nextConn = w.nextConn)
    (descriptors : ∀ id, moved.descriptor id = w.descriptor id ∨ moved.descriptor id = none) (fd : Nat) :
    connHolders w fd = connHolders moved fd + closed w moved fd := by
  unfold connHolders closed
  rw [nextConn, ← Finset.sum_add_distrib]
  apply Finset.sum_congr rfl
  intro id _
  unfold held
  rcases descriptors id with same | gone
  · rw [same]
    by_cases here : w.descriptor id = some fd
    · simp [here]
    · simp [here]
  · rw [gone]
    by_cases here : w.descriptor id = some fd
    · simp [here]
    · simp [here]

theorem collect_closed (accounted : Accounted moved) (fd : Nat) : closed moved moved.collect fd = 0 := by
  unfold closed
  apply Finset.sum_eq_zero
  intro id _
  apply if_neg
  intro both
  rw [accounted.collect_descriptor, both.1] at both
  cases both.2

theorem collect_holders (accounted : Accounted moved) (fd : Nat) :
    connHolders moved.collect fd = connHolders moved fd := by
  unfold connHolders
  apply Finset.sum_congr rfl
  intro id _
  rw [accounted.collect_descriptor]

theorem not_closedEarly {v : World} {channel : TcpConnection → Channel}
    (removed : ∀ id, v.descriptor id = w.descriptor id ∨
      ∀ conn, w.conns id = some conn → (channel conn).registered = false) : closedEarly w v channel = false := by
  unfold closedEarly
  rw [List.any_eq_false]
  intro id _ early
  simp only [Bool.and_eq_true, Option.any_eq_true] at early
  obtain ⟨⟨before, after⟩, conn, found, registered⟩ := early
  rcases removed id with same | out
  · rw [same, Option.isNone_iff_eq_none] at after
    rw [after] at before
    cases before
  · rw [out conn found] at registered
    cases registered

/-- A step of the loop: what it closes was held by the connections or in hand, and its channel was removed. -/
theorem Inventory.settle {except : Option Nat} {hand : Nat → Nat} (inventory : Inventory none hand s)
    (accounted : Accounted moved) (nextServer : moved.nextServer = s.world.nextServer)
    (conns : ∀ fd, connHolders s.world fd + hand fd = connHolders moved fd + closed s.world moved fd)
    (removed : ∀ id, moved.descriptor id = s.world.descriptor id ∨
      ∀ conn, s.world.conns id = some conn → conn.channel.remove.registered = false)
    (anchored : ∀ server, except ≠ some server → s.anchored server = true → (s.settle moved).anchored server = true) :
    Inventory except empty (s.settle moved) := by
  refine { inventory with accounted := accounted.collect, balanced := ?_, timely := ?_, known := ?_, anchored := ?_ }
  · intro fd
    have sum := inventory.balanced fd
    have acceptors : acceptorHolders (s.settle moved) fd = acceptorHolders s fd := by
      show ∑ server ∈ Finset.range moved.nextServer, heldBy (s.acceptors server) fd = _
      rw [nextServer]
      rfl
    have collected : closed moved moved.collect fd = 0 := collect_closed accounted fd
    have still : connHolders (s.settle moved).world fd = connHolders moved fd := collect_holders accounted fd
    have jobs : jobHolders (s.settle moved).jobs fd = jobHolders s.jobs fd := rfl
    have closings : (s.settle moved).descriptors.closings fd =
        s.descriptors.closings fd + closed s.world moved fd + closed moved moved.collect fd := rfl
    have obtained : (s.settle moved).descriptors.obtained = s.descriptors.obtained := rfl
    have account := conns fd
    simp only [State.holders, empty] at sum ⊢
    rw [closings, acceptors, still, jobs, obtained, ← sum]
    omega
  · have first : closedEarly s.world moved (fun conn => conn.channel.remove) = false := not_closedEarly removed
    have second : closedEarly moved moved.collect TcpConnection.channel = false :=
      not_closedEarly fun id => .inl (accounted.collect_descriptor id)
    simp only [State.settle, inventory.timely, first, second, Bool.or_false]
  · intro server acceptor found
    show server < moved.nextServer ∧ acceptor.Shaped
    rw [nextServer]
    exact inventory.known server acceptor found
  · intro server found different
    exact anchored server different (inventory.anchored server found (Option.some_ne_none server).symm)

/-- A step that closes no descriptor. -/
theorem Inventory.settle_same {except : Option Nat} (inventory : Inventory none empty s) (accounted : Accounted moved)
    (nextConn : moved.nextConn = s.world.nextConn) (nextServer : moved.nextServer = s.world.nextServer)
    (same : ∀ id, moved.descriptor id = s.world.descriptor id)
    (anchored : ∀ server, except ≠ some server → s.anchored server = true → (s.settle moved).anchored server = true) :
    Inventory except empty (s.settle moved) := by
  apply inventory.settle accounted nextServer _ (fun id => .inl (same id)) anchored
  intro fd
  exact connHolders_closed nextConn (fun id => .inl (same id)) fd

theorem anchored_iff {server : Nat} : s.anchored server = true ↔ (s.world.servers server).isSome = true ∨
    .accepting server ∈ s.world.stack ∨ .start server ∈ s.jobs := by
  simp only [State.anchored, Bool.or_eq_true, List.contains_iff_mem, or_assoc]

theorem anchored_mono {t : State} {server : Nat}
    (alive : (s.world.servers server).isSome = true → (t.world.servers server).isSome = true)
    (reading : .accepting server ∈ s.world.stack → .accepting server ∈ t.world.stack)
    (starting : .start server ∈ s.jobs → .start server ∈ t.jobs) (anchored : s.anchored server = true) :
    t.anchored server = true := by
  rw [anchored_iff] at anchored ⊢
  exact anchored.imp alive (.imp reading starting)

theorem Inventory.reactor (inventory : Inventory none empty s) (sheds : Sheds s.world moved) :
    Inventory none empty (s.settle moved) := by
  apply inventory.settle sheds.accounted sheds.nextServer
  · intro fd
    apply connHolders_closed sheds.nextConn
    intro id
    rcases sheds.descriptors id with same | gone
    · exact .inl same
    · exact .inr gone.1
  · intro id
    rcases sheds.descriptors id with same | gone
    · exact .inl same
    · exact .inr gone.2
  · intro server _
    exact anchored_mono (sheds.servers server).trans (sheds.accepting server) id

theorem jobHolders_append (first second : List Job) (fd : Nat) :
    jobHolders (first ++ second) fd = jobHolders first fd + jobHolders second fd := by
  simp only [jobHolders, List.map_append, List.sum_append]

/-- More functors wait, and they take over some of the descriptors in hand. -/
theorem Inventory.append {except : Option Nat} {hand rest : Nat → Nat} {jobs : List Job}
    (inventory : Inventory except hand s) (moves : ∀ fd, hand fd = jobHolders jobs fd + rest fd)
    (cleanups : ∀ channel acceptSocket idleFd, .cleanup channel acceptSocket idleFd ∈ jobs →
      ∀ found ∈ channel, found = Acceptor.newChannel ∧ acceptSocket.isSome = true)
    (kept : ∀ channel, .keep channel ∈ jobs → channel.registered = false) :
    Inventory except rest { s with jobs := s.jobs ++ jobs } := by
  refine { inventory with balanced := ?_, anchored := ?_, cleanups := ?_, kept := ?_ }
  · apply inventory.balanced.congr
    intro fd
    show connHolders s.world fd + acceptorHolders s fd + jobHolders (s.jobs ++ jobs) fd + rest fd = _
    rw [moves fd, State.holders, jobHolders_append]
    omega
  · intro server found different
    exact anchored_mono (s := s) id id (List.mem_append_left _) (inventory.anchored server found different)
  · intro channel socket idle member
    exact (List.mem_append.mp member).elim (inventory.cleanups channel socket idle) (cleanups channel socket idle)
  · intro channel member
    exact (List.mem_append.mp member).elim (inventory.kept channel) (kept channel)

theorem newChannel_removed : Acceptor.newChannel.disableAll.remove.registered = false := by decide

/-- The cleanup closes the descriptors it was handed, after it has removed the channel. -/
theorem Inventory.cleanup {except : Option Nat} {acceptChannel : Option Channel} {acceptSocket idleFd : Option Nat}
    (inventory : Inventory except (fun fd => held acceptSocket fd + held idleFd fd) s)
    (shaped : ∀ found ∈ acceptChannel, found = Acceptor.newChannel ∧ acceptSocket.isSome = true) :
    Inventory except empty (s.cleanup acceptChannel acceptSocket idleFd) := by
  have kept : ∀ channel, Job.keep channel ∈ (acceptChannel.map fun channel => channel.disableAll.remove).toList.map .keep →
      channel.registered = false := by
    intro channel member
    obtain ⟨removed, member, same⟩ := List.mem_map.mp member
    cases same
    rw [Option.mem_toList] at member
    obtain ⟨found, present, rfl⟩ := Option.map_eq_some_iff.mp member
    rw [(shaped found present).1]
    exact newChannel_removed
  have none : ∀ fd, jobHolders ((acceptChannel.map fun channel => channel.disableAll.remove).toList.map .keep) fd = 0 := by
    intro fd
    cases acceptChannel <;> rfl
  have queued : Inventory except (fun fd => held acceptSocket fd + held idleFd fd)
      { s with jobs := s.jobs ++ (acceptChannel.map fun channel => channel.disableAll.remove).toList.map .keep } := by
    refine inventory.append (fun fd => by rw [none fd, Nat.zero_add]) ?_ kept
    intro channel socket idle member
    obtain ⟨_, _, same⟩ := List.mem_map.mp member
    cases same
  refine { queued with balanced := ?_, timely := ?_ }
  · have first : Balanced (s.descriptors.closeOpen acceptSocket) fun fd =>
        (s.cleanup acceptChannel acceptSocket idleFd).holders fd + held idleFd fd := by
      apply queued.balanced.closeOpen
      intro fd
      show (s.cleanup acceptChannel acceptSocket idleFd).holders fd + (held acceptSocket fd + held idleFd fd) = _
      omega
    exact first.closeOpen fun fd => rfl
  · have out : (acceptChannel.map fun channel => channel.disableAll.remove).any Channel.registered = false := by
      cases acceptChannel with
      | none => rfl
      | some found => rw [(shaped found rfl).1]; exact newChannel_removed
    simp only [State.cleanup, inventory.timely, out, Bool.and_false, Bool.or_false]

theorem update_acceptors {acceptors : Nat → Option Acceptor} {server other : Nat} {value : Option Acceptor}
    {acceptor : Acceptor} (present : Function.update acceptors server value other = some acceptor) :
    (other = server ∧ value = some acceptor) ∨ (other ≠ server ∧ acceptors other = some acceptor) := by
  by_cases same : other = server
  · rw [same, Function.update_self] at present
    exact .inl ⟨same, present⟩
  · rw [Function.update_of_ne same] at present
    exact .inr ⟨same, present⟩

/-- The holders when an acceptor is replaced. -/
theorem holders_update {server : Nat} (inside : server < s.world.nextServer) (value : Option Acceptor) (fd : Nat) :
    ({ s with acceptors := Function.update s.acceptors server value } : State).holders fd +
      heldBy (s.acceptors server) fd = s.holders fd + heldBy value fd := by
  have changed := sum_range_change (f := fun other => heldBy (s.acceptors other) fd)
    (g := fun other => heldBy (Function.update s.acceptors server value other) fd) inside
    fun other differs => by simp only [Function.update_of_ne differs]
  simp only [Function.update_self] at changed
  simp only [State.holders, acceptorHolders]
  omega

/-- The acceptor is taken out, with its descriptors in hand. -/
theorem Inventory.drop {server : Nat} {acceptor : Acceptor} (inventory : Inventory (some server) empty s)
    (found : s.acceptors server = some acceptor) :
    Inventory none acceptor.held { s with acceptors := Function.update s.acceptors server none } := by
  refine { inventory with balanced := ?_, known := ?_, anchored := ?_ }
  · apply inventory.balanced.congr
    intro fd
    have changed := holders_update (inventory.known server acceptor found).1 none fd
    rwa [found] at changed
  · intro other there present
    rcases update_acceptors present with ⟨_, gone⟩ | ⟨_, before⟩
    · cases gone
    · exact inventory.known other there before
  · intro other present _
    obtain ⟨there, present⟩ := Option.isSome_iff_exists.mp present
    rcases update_acceptors present with ⟨_, gone⟩ | ⟨differs, before⟩
    · cases gone
    · exact inventory.anchored other (Option.isSome_of_eq_some before) fun equal => differs (Option.some.inj equal).symm

theorem Inventory.releaseAcceptor {server : Nat} (inventory : Inventory (some server) empty s) (inLoopThread : Bool) :
    Inventory none empty (s.releaseAcceptor server inLoopThread) := by
  have others : (∀ acceptor, s.acceptors server = some acceptor → s.anchored server = true) →
      Inventory none empty s := by
    intro own
    refine { inventory with anchored := ?_ }
    intro other present _
    by_cases same : other = server
    · subst same
      obtain ⟨acceptor, found⟩ := Option.isSome_iff_exists.mp present
      exact own acceptor found
    · exact inventory.anchored other present fun equal => same (Option.some.inj equal).symm
  unfold State.releaseAcceptor
  split
  · rename_i none
    apply others
    intro acceptor found
    rw [none] at found
    cases found
  · rename_i acceptor found
    split
    · rename_i anchored
      exact others fun _ _ => anchored
    · have dropped := inventory.drop found
      have shaped := (inventory.known server acceptor found).2
      dsimp only
      split
      · exact dropped.cleanup shaped.channel
      · apply dropped.append
        · exact fun fd => rfl
        · intro channel socket idle member
          cases List.mem_singleton.mp member
          exact shaped.channel
        · intro channel member
          cases List.mem_singleton.mp member

theorem Inventory.onAcceptor {except : Option Nat} (inventory : Inventory except empty s)
    {operation : Acceptor → Descriptors → Acceptor × Descriptors}
    (keeps : ∀ (acceptor : Acceptor) (descriptors : Descriptors) (rest : Nat → Nat),
      Balanced descriptors (fun fd => rest fd + acceptor.held fd) → acceptor.Shaped → Balanced (operation acceptor descriptors).2
        (fun fd => rest fd + (operation acceptor descriptors).1.held fd) ∧ (operation acceptor descriptors).1.Shaped)
    (server : Nat) : Inventory except empty (s.onAcceptor server operation) := by
  unfold State.onAcceptor
  split
  · exact inventory
  · rename_i acceptor found
    obtain ⟨inside, shaped⟩ := inventory.known server acceptor found
    have before : Balanced s.descriptors fun fd =>
        ({ s with acceptors := Function.update s.acceptors server none } : State).holders fd + acceptor.held fd := by
      apply inventory.balanced.congr
      intro fd
      have dropped := holders_update inside none fd
      rwa [found] at dropped
    obtain ⟨after, still⟩ := keeps acceptor s.descriptors _ before shaped
    refine { inventory with balanced := ?_, known := ?_, anchored := ?_ }
    · apply after.congr
      intro fd
      have replaced := holders_update inside (some (operation acceptor s.descriptors).1) fd
      have dropped := holders_update inside none fd
      simp only [found, heldBy, Option.elim_none, Option.elim_some] at dropped replaced
      show ({ s with acceptors := Function.update s.acceptors server (some (operation acceptor s.descriptors).1) } :
        State).holders fd + 0 = _
      omega
    · intro other there present
      rcases update_acceptors present with ⟨rfl, new⟩ | ⟨_, old⟩
      · cases new
        exact ⟨inside, still⟩
      · exact inventory.known other there old
    · intro other present different
      obtain ⟨there, present⟩ := Option.isSome_iff_exists.mp present
      rcases update_acceptors present with ⟨rfl, _⟩ | ⟨_, old⟩
      · exact inventory.anchored other (Option.isSome_of_eq_some found) different
      · exact inventory.anchored other (Option.isSome_of_eq_some old) different

theorem Inventory.listen {except : Option Nat} (inventory : Inventory except empty s) (server : Nat)
    (result : ListenResult) : Inventory except empty (s.listen server result) :=
  inventory.onAcceptor (fun _ _ _ balanced shaped => Acceptor.listen_balanced balanced shaped result) server

end Hvnetpp.Ledger
