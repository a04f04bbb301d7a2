import OhMyDb.Model.Startup
import OhMyDb.Raft.Safety
import OhMyDb.Raft.Stepwise

/-!
The two maps that say who belongs to the cluster: `ClusterConfig`, which quorums are
counted in, and `peers_`, which messages are sent to. A configuration change updates
the first under the mutex and the second after releasing it; a start adds to the second
while it serves configuration changes already; the functions that report the address of
the leader may insert into the first.
-/

namespace OhMyDb
open Execution

namespace PeerUpdate

def peer : PeerUpdate → Int
  | .addPeer peerId | .removePeer peerId => peerId

/-- What the update is about to bring about in `peers_` is what the configuration says. -/
def Agrees (config : IntMap ServerInfo) : PeerUpdate → Prop
  | .addPeer peerId => peerId ∈ config
  | .removePeer peerId => peerId ∉ config

instance (config : IntMap ServerInfo) (u : PeerUpdate) : Decidable (u.Agrees config) :=
  match u with
  | .addPeer _ => inferInstanceAs (Decidable (_ ∈ _))
  | .removePeer _ => inferInstanceAs (Decidable (¬ _))

end PeerUpdate

instance (r : Replica) (call : Call) : Decidable (r.LooksUp call) :=
  match call with
  | .refused _ _ => inferInstanceAs (Decidable True)
  | .addWaitPrev _ _ | .removeWaitPrev _ _ => inferInstanceAs (Decidable (_ ∧ _))
  | .addWaitCommit _ _ _ => inferInstanceAs (Decidable (_ ∨ _))
  | .removeWaitCommit _ _ _ => inferInstanceAs (Decidable (_ ∧ _))
  | .submitting _ _ | .queueing _ _ | .waiting _ _ | .returned _ _ _ | .addSubmit _ _
  | .addReturned _ | .removeSubmit _ _ | .removeReturned _ => inferInstanceAs (Decidable False)

theorem IntMap.subscript_of_mem {V : Type} {m : IntMap V} {k : Int} {dflt : V} (h : k ∈ m) :
    (m.subscript k dflt).2 = m := by
  obtain ⟨v, hv⟩ := Option.isSome_iff_exists.mp (AList.lookup_isSome.mpr h)
  simp only [subscript, hv]

namespace Command

/-- A change of the configuration concerns the server alone whose peer is updated,
or the replica itself. -/
theorem mem_configure {command : Command} {config : IntMap ServerInfo} {id p : Int}
    (other : ∀ u ∈ command.peerUpdate id, u.peer ≠ p) (ne : p ≠ id) :
    p ∈ command.configure config ↔ p ∈ config := by
  cases command with
  | addServer info =>
      have distinct : p ≠ info.id := by
        rintro rfl
        exact other (.addPeer info.id) (if_pos (Ne.symm ne)) rfl
      simp [configure, distinct]
  | removeServer serverId =>
      have distinct : p ≠ serverId := by
        rintro rfl
        exact other (.removePeer p) (if_pos (Ne.symm ne)) rfl
      simp [configure, distinct]
  | _ => rfl

theorem peerUpdate_ne {command : Command} {id : Int} {u : PeerUpdate}
    (h : u ∈ command.peerUpdate id) : u.peer ≠ id := by
  cases command with
  | addServer info =>
      obtain ⟨ne, rfl⟩ := Option.ite_none_right_eq_some.mp h |>.imp_right Option.some.inj
      exact Ne.symm ne
  | removeServer serverId =>
      obtain ⟨ne, rfl⟩ := Option.ite_none_right_eq_some.mp h |>.imp_right Option.some.inj
      exact Ne.symm ne
  | _ => cases h

end Command

def RaftThread.pending : RaftThread → Option PeerUpdate
  | .updatingPeers _ update _ => some update
  | _ => none

@[simp] theorem RaftThread.afterPush_pending (saved : Int) (ops : List RaftOp)
    (u : Option PeerUpdate) : (afterPush saved ops u).pending = u := by
  cases u <;> rfl

namespace Replica
variable {r r' : Replica}

/-- The servers `addPeer` or `removePeer` is still to be called for. -/
def pending (r : Replica) : List Int :=
  (r.raftThread.pending.toList ++ r.handlers.filterMap (·.update)).map PeerUpdate.peer

variable {unadded : Int → List Int}

/-- Apart from these, and those that a start has still to add, the peers are the members other
than the replica itself. -/
structure KeysMatch (unadded : Int → List Int) (r : Replica) : Prop where
  other : ∀ p ∈ r.pending ++ unadded r.id, p ≠ r.id
  agree : ∀ p, p ∉ r.pending ++ unadded r.id →
    (p ∈ r.peers ↔ p ∈ r.state.clusterConfig ∧ p ≠ r.id)

theorem KeysMatch.congr {unadded' : Int → List Int} (h : r.KeysMatch unadded)
    (same : unadded' r.id = unadded r.id) : r.KeysMatch unadded' where
  other := by rw [same]; exact h.other
  agree := by rw [same]; exact h.agree

theorem KeysMatch.keep (h : r.KeysMatch unadded) (id : r'.id = r.id) (peers : r'.peers = r.peers)
    (config : r'.state.clusterConfig = r.state.clusterConfig) (pending : r'.pending = r.pending) :
    r'.KeysMatch unadded where
  other := by rw [pending, id]; exact h.other
  agree := by rw [pending, id, peers, config]; exact h.agree

/-- An entry is appended, and its update of the peers is still to be made. -/
theorem KeysMatch.append (h : r.KeysMatch unadded) (command : Command) (id : r'.id = r.id)
    (peers : r'.peers = r.peers)
    (config : r'.state.clusterConfig = command.configure r.state.clusterConfig)
    (pending : ∀ p, p ∈ r'.pending ↔
      p ∈ r.pending ∨ ∃ u ∈ command.peerUpdate r.id, u.peer = p) : r'.KeysMatch unadded where
  other p mem := by
    rw [id] at mem ⊢
    rcases List.mem_append.mp mem with mem | mem
    · rcases (pending p).mp mem with mem | ⟨u, hu, rfl⟩
      · exact h.other p (List.mem_append_left _ mem)
      · exact Command.peerUpdate_ne hu
    · exact h.other p (List.mem_append_right _ mem)
  agree p apart := by
    rw [id, List.mem_append, pending, not_or, not_or] at apart
    have others : p ∉ r.pending ++ unadded r.id := fun mem =>
      (List.mem_append.mp mem).elim apart.1.1 apart.2
    rw [peers, config, id, h.agree p others]
    refine and_congr_left fun ne => (Command.mem_configure (fun u hu same => ?_) ne).symm
    exact apart.1.2 ⟨u, hu, same⟩

/-- One of the updates is made, or one of the peers of the start is added. -/
theorem KeysMatch.updated {unadded' : Int → List Int} (h : r.KeysMatch unadded) {u : PeerUpdate}
    (id : r'.id = r.id) (peers : r'.peers = (r.updatePeers u).peers)
    (config : r'.state.clusterConfig = r.state.clusterConfig)
    (pending : ∀ p, p ∈ r.pending ++ unadded r.id ↔
      p ∈ r'.pending ++ unadded' r'.id ∨ p = u.peer)
    (ok : u.peer ∈ r'.pending ++ unadded' r'.id ∨ u.Agrees r'.state.clusterConfig) :
    r'.KeysMatch unadded' where
  other p mem := by
    rw [id]
    exact h.other p ((pending p).mpr (Or.inl mem))
  agree p apart := by
    rw [peers, config]
    by_cases same : p = u.peer
    · subst same
      have agrees := ok.resolve_left apart
      have other := h.other _ ((pending _).mpr (Or.inr rfl))
      rw [config] at agrees
      rw [id]
      cases u with
      | addPeer q =>
          simp only [PeerUpdate.Agrees, PeerUpdate.peer] at agrees other ⊢
          simp [updatePeers, addPeer, agrees, other]
      | removePeer q =>
          simp only [PeerUpdate.Agrees, PeerUpdate.peer] at agrees other ⊢
          simp [updatePeers, removePeer, agrees]
    · rw [id, ← h.agree p fun mem => ((pending p).mp mem).elim apart same]
      cases u with
      | addPeer q =>
          have distinct : p ≠ q := same
          simp [updatePeers, addPeer, distinct]
      | removePeer q =>
          have distinct : p ≠ q := same
          simp [updatePeers, removePeer, distinct]

/-- The address is asked for while the leader is a member, and the last update of a
server's peer is made while it agrees with the configuration. -/
def Rules.members (unadded : Int → List Int) : Rules where
  address s := s.lastKnownLeaderId ∈ s.clusterConfig
  update u r := u.peer ∈ r.pending ++ unadded r.id ∨ u.Agrees r.state.clusterConfig

theorem KeysMatch.change (h : r.KeysMatch unadded) (ch : Change (.members unadded) r r') :
    r'.KeysMatch unadded := by
  cases ch with
  | address known => exact h.keep rfl rfl (IntMap.subscript_of_mem known) rfl
  | swap thread => exact h.keep rfl rfl rfl (by simp [pending, thread, RaftThread.pending])
  | check thread _ =>
      refine h.keep rfl rfl rfl ?_
      simp only [pending, thread]
      split <;> rfl
  | begin thread => exact h.keep rfl rfl rfl (by simp [pending, thread, RaftThread.pending])
  | push saved op rest thread _ =>
      refine h.append op.command rfl rfl rfl fun p => ?_
      simp only [pending, thread, RaftThread.afterPush_pending, List.map_append, List.mem_append,
        List.mem_map, Option.mem_toList]
      simp [RaftThread.pending, Replica.append, or_comm]
  | update saved u rest thread ok =>
      have pending : ∀ p, p ∈ r.pending ++ unadded r.id ↔ p ∈ (Replica.pending
          { r with raftThread := .relocking saved rest }) ++ unadded r.id ∨ p = u.peer := by
        intro p
        simp only [Replica.pending, thread, RaftThread.pending, Option.toList_some,
          Option.toList_none, List.nil_append, List.map_cons, List.cons_append, List.mem_cons]
        exact or_comm
      cases u <;> exact h.updated rfl rfl rfl pending ok
  | finish saved thread =>
      exact h.keep rfl rfl rfl (by simp [pending, thread, RaftThread.pending, persistLogs])
  | spawn saved thread => exact h.keep rfl rfl rfl (by simp [pending, thread, RaftThread.pending])
  | clear thread => exact h.keep rfl rfl rfl (by simp [pending, thread, RaftThread.pending])
  | enter x locked _ => exact h.keep rfl rfl rfl (by simp [pending, locked])
  | again j x at_ locked =>
      refine h.keep rfl rfl rfl ?_
      simp [pending, locked, List.filterMap_eraseIdx_of_none at_ locked]
  | follow hs x e rest at_ locked _ _ _ =>
      refine h.append e.op.command rfl rfl rfl fun p => ?_
      simp only [pending, at_, List.filterMap_append, List.map_append, List.mem_append]
      simp [locked, Replica.append, or_assoc]
  | updateHandler j x u at_ released ok =>
      have fewer := List.filterMap_set_perm (f := AppendHandler.update)
        (y := { x with update := none }) at_ released rfl
      have pending : ∀ p, p ∈ r.pending ++ unadded r.id ↔ p ∈ (Replica.pending
          { r with handlers := r.handlers.set j { x with update := none } }) ++ unadded r.id ∨
            p = u.peer := by
        intro p
        simp only [Replica.pending, List.map_append, List.mem_append]
        rw [(fewer.map PeerUpdate.peer).mem_iff, List.map_cons, List.mem_cons]
        tauto
      cases u <;> exact h.updated rfl rfl rfl pending ok
  | leave hs x at_ locked _ =>
      exact h.keep rfl rfl rfl (by simp [pending, at_, locked, persistLogs])
  | _ => exact h.keep rfl rfl rfl rfl

/-- A start has still to add all of its peers. -/
theorem KeysMatch.launch (r : Replica) (config : IntMap ServerInfo) (withBootstrap : Bool)
    (stored : PersistentStore) (file : List LogEntry)
    (all : unadded r.id = config.keys.filter (· ≠ r.id)) :
    ((r.bootstrap withBootstrap stored file).setClusterConfig config).KeysMatch unadded where
  other p mem := by
    have mem : p ∈ unadded r.id := mem
    rw [all] at mem
    exact of_decide_eq_true (List.mem_filter.mp mem).2
  agree p apart := by
    have apart : p ∉ unadded r.id := apart
    rw [all] at apart
    refine iff_of_false (AList.notMem_empty _) fun both => apart (List.mem_filter.mpr ⟨?_, ?_⟩)
    · exact AList.mem_keys.mp both.1
    · exact decide_eq_true both.2

/-- Quorums are counted among the peers and, where it is a member, the replica. -/
theorem KeysMatch.size (h : r.KeysMatch unadded) (none : r.pending = []) (all : unadded r.id = []) :
    r.state.clusterConfig.size =
      r.peers.keys.length + if r.id ∈ r.state.clusterConfig then 1 else 0 := by
  have agree (p : Int) : p ∈ r.peers.keys ↔ p ∈ r.state.clusterConfig.keys.erase r.id := by
    rw [r.state.clusterConfig.keys_nodup.mem_erase_iff, and_comm]
    exact h.agree p (by simp [none, all])
  have perm := (List.perm_ext_iff_of_nodup r.peers.keys_nodup
    (r.state.clusterConfig.keys_nodup.erase r.id)).mpr agree
  rw [perm.length_eq, IntMap.size]
  by_cases self : r.id ∈ r.state.clusterConfig
  · have pos := List.length_pos_of_mem (show r.id ∈ r.state.clusterConfig.keys from self)
    rw [if_pos self, List.length_erase_of_mem self]
    omega
  · rw [if_neg self, List.erase_of_not_mem self]
    rfl

end Replica

namespace Cluster
variable {c : Cluster}

/-- The address of the leader is asked for only while the last known leader is in the
configuration. -/
def AsksMember (c : Cluster) : Action → Prop
  | .addServer r args => (c.node r).state.role ≠ .leader ∨
      args.serverId ∈ (c.node r).state.clusterConfig →
        (c.node r).state.lastKnownLeaderId ∈ (c.node r).state.clusterConfig
  | .removeServer r serverId => (c.node r).state.role ≠ .leader ∨
      serverId ∉ (c.node r).state.clusterConfig →
        (c.node r).state.lastKnownLeaderId ∈ (c.node r).state.clusterConfig
  | .callStep r j _ => ∀ call ∈ (c.node r).calls[j]?, (c.node r).LooksUp call →
      (c.node r).state.lastKnownLeaderId ∈ (c.node r).state.clusterConfig
  | _ => True

instance (c : Cluster) (a : Action) : Decidable (c.AsksMember a) :=
  match a with
  | .addServer _ _ => inferInstanceAs (Decidable (_ ∨ _ → _))
  | .removeServer _ _ => inferInstanceAs (Decidable (_ ∨ _ → _))
  | .callStep _ _ _ => inferInstanceAs (Decidable (∀ _, _ → _))
  | .electionTick _ _ _ | .voteSend _ _ | .voteDeliver _ _ _ | .voteReturn _ _ _ _
  | .voteFail _ _ | .raftImpl _ | .appendSend _ _ _ | .appendDeliver _ _ _ | .appendResume _ _
  | .appendReturn _ _ _ _ | .appendFail _ _ | .executer _ _ | .clientGet _ _
  | .clientPut _ _ _ => inferInstanceAs (Decidable True)

/-- Replica `r`, the leader, is asked to add server 4, and does so. -/
def addFourth (r : Int) : List Action :=
  [.addServer r ⟨4, "", 0, 0, ""⟩, .callStep r 0 0, .callStep r 0 0] ++
    List.replicate 5 (.raftImpl r)

end Cluster

namespace StartingCluster
open Cluster (threeServers plainElection addFourth)
variable {s s' : StartingCluster} {e : StartingAction}

/-- In every replica `peers_` has the keys of `ClusterConfig` without its own, but for
the servers whose peer is just being added or removed, and those that its start has still to
add; where there are none, the configuration counts the peers and the replica itself. -/
def KeysAgree (s : StartingCluster) : Prop :=
  ∀ r, (∀ p, p ∉ (s.cluster.node r).pending ++ s.unadded r →
      (p ∈ (s.cluster.node r).peers ↔ p ∈ (s.cluster.node r).state.clusterConfig ∧ p ≠ r)) ∧
    ((s.cluster.node r).pending = [] → s.unadded r = [] →
      (s.cluster.node r).state.clusterConfig.size = (s.cluster.node r).peers.keys.length +
        if r ∈ (s.cluster.node r).state.clusterConfig then 1 else 0)

/-- The address of the leader is asked for only while the last known leader is in the
configuration. -/
def AsksMember (s : StartingCluster) : StartingAction → Prop
  | .step a => s.cluster.AsksMember a
  | .addPeer _ _ => True

/-- An update of the peers, or a call of `addPeer` in a start, agrees with the configuration when
it is made, unless another update of the same server is still to come. -/
def UpdatesAgree (s : StartingCluster) : StartingAction → Prop
  | .step (.raftImpl r) => ∀ u ∈ (s.cluster.node r).raftThread.pending,
      u.peer ∈ ((s.cluster.node r).handlers.filterMap (·.update)).map PeerUpdate.peer ++
        s.unadded r ∨ u.Agrees (s.cluster.node r).state.clusterConfig
  | .step (.appendResume p j) => ∀ h ∈ (s.cluster.node p).handlers[j]?, ∀ u ∈ h.update,
      u.peer ∈ ((s.cluster.node p).raftThread.pending.toList ++
        ((s.cluster.node p).handlers.eraseIdx j).filterMap (·.update)).map PeerUpdate.peer ++
          s.unadded p ∨ u.Agrees (s.cluster.node p).state.clusterConfig
  | .step _ => True
  | .addPeer r peerId => peerId ∈ (s.cluster.node r).pending ∨
      peerId ∈ (s.cluster.node r).state.clusterConfig

instance (s : StartingCluster) (e : StartingAction) : Decidable (s.AsksMember e) :=
  match e with
  | .step a => inferInstanceAs (Decidable (s.cluster.AsksMember a))
  | .addPeer _ _ => inferInstanceAs (Decidable True)

instance (s : StartingCluster) (e : StartingAction) : Decidable (s.UpdatesAgree e) :=
  match e with
  | .step (.raftImpl _) => inferInstanceAs (Decidable (∀ _, _ → _))
  | .step (.appendResume _ _) => inferInstanceAs (Decidable (∀ _, _ → _))
  | .addPeer _ _ => inferInstanceAs (Decidable (_ ∨ _))
  | .step (.electionTick _ _ _) | .step (.voteSend _ _) | .step (.voteDeliver _ _ _)
  | .step (.voteReturn _ _ _ _) | .step (.voteFail _ _) | .step (.appendSend _ _ _)
  | .step (.appendDeliver _ _ _) | .step (.appendReturn _ _ _ _) | .step (.appendFail _ _)
  | .step (.executer _ _) | .step (.clientGet _ _) | .step (.clientPut _ _ _)
  | .step (.addServer _ _) | .step (.removeServer _ _) | .step (.callStep _ _ _) =>
      inferInstanceAs (Decidable True)

theorem UpdatesAgree.abides {a : Action} (id : ∀ q, (s.cluster.node q).id = q)
    (asks : s.AsksMember (.step a)) (ok : s.UpdatesAgree (.step a)) :
    s.cluster.Abides (.members s.unadded) a := by
  cases a with
  | raftImpl r =>
      refine ⟨True.intro, fun _ => True.intro, fun saved u rest thread => ?_⟩
      have agrees := ok u (by simp [thread, RaftThread.pending])
      have here : s.unadded (s.cluster.node r).id = s.unadded r := by rw [id r]
      rw [← here] at agrees
      simp only [Replica.raftImpl, thread]
      cases u <;> exact agrees
  | appendResume p j =>
      intro h hj
      refine ⟨fun u hu => ?_, fun _ _ _ => True.intro⟩
      have agrees := ok h hj u hu
      have here : s.unadded (s.cluster.node p).id = s.unadded p := by rw [id p]
      rw [← here, ← List.filterMap_set_of_none (f := AppendHandler.update)
        (y := { h with update := none }) rfl] at agrees
      cases u <;> exact agrees
  | appendDeliver r k now =>
      exact ⟨True.intro, fun _ _ _ _ _ _ => ⟨True.intro, fun _ _ => True.intro⟩⟩
  | addServer r args => exact asks
  | removeServer r serverId => exact asks
  | callStep r j now =>
      exact fun call hc => ⟨True.intro, asks call hc, fun _ => True.intro⟩
  | executer r ok => exact fun _ _ => True.intro
  | voteReturn r k reply now => exact ⟨True.intro, fun _ => True.intro⟩
  | _ => exact True.intro

/-- A replica that has still to add some of its peers, or none. -/
structure Starting (unadded : Int → List Int) (q : Int) (r : Replica) : Prop where
  id : r.id = q
  bare : r.Bare
  keys : r.KeysMatch unadded

theorem Starting.launch (servers : List Int) (config : Int → IntMap ServerInfo)
    (withBootstrap : Int → Bool) (stored : Int → PersistentStore) (file : Int → List LogEntry)
    (q : Int) : Starting (launch servers config withBootstrap stored file).unadded q
      ((launch servers config withBootstrap stored file).cluster.node q) where
  id := rfl
  bare :=
    have fresh : Replica.Bare { id := q } :=
      ⟨fun _ h => absurd h List.not_mem_nil, fun _ h => absurd h List.not_mem_nil⟩
    have loaded := fresh.bootstrap (withBootstrap q) (stored q) (file q)
    ⟨loaded.threads, loaded.handlers⟩
  keys := .launch { id := q } _ _ _ _ rfl

theorem Starting.step {a : Action} {c : Cluster}
    (starting : ∀ q, Starting s.unadded q (s.cluster.node q)) (asks : s.AsksMember (.step a))
    (updates : s.UpdatesAgree (.step a)) (hs : s.cluster.step a = some c) (q : Int) :
    Starting s.unadded q (c.node q) := by
  have abides := updates.abides (fun q => (starting q).id) asks
  have moved := (Cluster.Transition.of_step hs).2.changes (fun q => (starting q).bare) abides q
  exact {
    id := moved.preserves (I := fun r => r.id = q) (fun _ _ same ch => ch.id.trans same)
      (starting q).id
    bare := (starting q).bare.changes moved
    keys := moved.preserves (fun _ _ => Replica.KeysMatch.change) (starting q).keys }

theorem Starting.addPeer {r peerId : Int}
    (starting : ∀ q, Starting s.unadded q (s.cluster.node q)) (mem : peerId ∈ s.unadded r)
    (updates : s.UpdatesAgree (.addPeer r peerId)) (q : Int) :
    Starting (Function.update s.unadded r ((s.unadded r).erase peerId)) q
      ((s.cluster.set r ((s.cluster.node r).addPeer peerId)).node q) := by
  refine Cluster.set_cases (fun here => ?_) fun other => ?_
  · subst here
    obtain ⟨id, bare, keys⟩ := starting q
    refine ⟨id, ⟨bare.threads, bare.handlers⟩, ?_⟩
    have left : Function.update s.unadded q ((s.unadded q).erase peerId)
        ((s.cluster.node q).addPeer peerId).id = (s.unadded q).erase peerId :=
      (congrArg _ id).trans (Function.update_self _ _ _)
    refine keys.updated (u := .addPeer peerId) rfl rfl rfl (fun p => ?_) ?_
    · have perm := (List.perm_cons_erase mem).mem_iff (a := p)
      rw [left, id, List.mem_append, perm, List.mem_cons, List.mem_append, or_comm (a := p = _),
        or_assoc]
      rfl
    · exact updates.imp_left (List.mem_append_left _)
  · obtain ⟨id, bare, keys⟩ := starting q
    refine ⟨id, bare, keys.congr ?_⟩
    rw [id, Function.update_of_ne other]

theorem Starting.preserved {s' : StartingCluster} {e : StartingAction}
    (starting : ∀ q, Starting s.unadded q (s.cluster.node q)) (asks : s.AsksMember e)
    (updates : s.UpdatesAgree e) (hs : s.step e = some s') (q : Int) :
    Starting s'.unadded q (s'.cluster.node q) := by
  cases e with
  | step a =>
      obtain ⟨_, hs⟩ := Option.ite_none_left_eq_some.mp hs
      obtain ⟨c, step, rfl⟩ := Option.map_eq_some_iff.mp hs
      exact Starting.step starting asks updates step q
  | addPeer r peerId =>
      obtain ⟨⟨_, mem⟩, e⟩ := Option.ite_none_right_eq_some.mp hs
      obtain rfl := Option.some.inj e
      exact Starting.addPeer starting mem updates q

theorem keysAgree {servers : List Int} {config : Int → IntMap ServerInfo}
    {withBootstrap : Int → Bool} {stored : Int → PersistentStore} {file : Int → List LogEntry}
    {h : List (StartingCluster × StartingAction)}
    (run : Run step (launch servers config withBootstrap stored file) h s)
    (asks : Meets AsksMember h) (updates : Meets UpdatesAgree h) : KeysAgree s := by
  have both : Meets (fun s e => s.AsksMember e ∧ s.UpdatesAgree e) h :=
    fun p hp => ⟨asks p hp, updates p hp⟩
  have starting := run.stateInvariant
    (I := fun s => ∀ q, Starting s.unadded q (s.cluster.node q)) both (Starting.launch _ _ _ _ _)
    (fun _ _ _ starting ok hs => Starting.preserved starting ok.1 ok.2 hs)
  intro r
  obtain ⟨id, _, keys⟩ := starting r
  have agree := keys.agree
  have size := keys.size
  rw [id] at agree size
  exact ⟨agree, size⟩

/-- Three servers start without bootstrap. -/
def threeStart : StartingCluster :=
  launch [1, 2, 3] (fun _ => threeServers) (fun _ => false) (fun _ => {}) fun _ => []

def addPeers : List StartingAction :=
  [.addPeer 1 2, .addPeer 1 3, .addPeer 2 1, .addPeer 2 3, .addPeer 3 1, .addPeer 3 2]

/-- Server 4 is added after the start. -/
theorem keysAgree_addFourth :
    4 ∈ ((outcome step threeStart (addPeers ++
      (plainElection ++ addFourth 1).map .step)).2.cluster.node 1).peers ∧
    KeysAgree (outcome step threeStart (addPeers ++
      (plainElection ++ addFourth 1).map .step)).2 :=
  ⟨by decide +kernel,
    keysAgree (outcome_run _ _ _) (by decide +kernel) (by decide +kernel)⟩

/-- A PUT is refused before the replica has heard of any leader. -/
def refusedPut : List StartingAction :=
  addPeers ++ [.clientPut 2 5 7, .callStep 2 0 0, .callStep 2 0 0].map .step

/-- Server 0 becomes a member. -/
theorem not_keysAgree : ¬ ∀ (servers : List Int) (config : Int → IntMap ServerInfo)
    (withBootstrap : Int → Bool) (stored : Int → PersistentStore) (file : Int → List LogEntry)
    (h : List (StartingCluster × StartingAction)) (s : StartingCluster),
    Run step (launch servers config withBootstrap stored file) h s → KeysAgree s := by
  intro always
  have none : ((outcome step threeStart refusedPut).2.cluster.node 2).pending = [] ∧
      (outcome step threeStart refusedPut).2.unadded 2 = [] := by
    decide +kernel
  have member :
      0 ∈ ((outcome step threeStart refusedPut).2.cluster.node 2).state.clusterConfig ∧
      0 ∉ ((outcome step threeStart refusedPut).2.cluster.node 2).peers := by
    decide +kernel
  have agree := (always _ _ _ _ _ _ _ (outcome_run step threeStart refusedPut) 2).1 0
    (by simp [none])
  exact member.2 (agree.mpr ⟨member.1, by decide⟩)

end StartingCluster
end OhMyDb
