import OhMyDb.Membership.Peers
import OhMyDb.Model.SenderLoop
import OhMyDb.Raft.Handlers
import OhMyDb.Raft.Senders

/-!
The three maps that are kept for each peer: the clients in `peers_`, and the two indices. All
are read with `operator[]`, by threads that know their peer by its id only.
-/

namespace OhMyDb
open Execution

namespace Replica
variable {r r' : Replica} {u : Option PeerUpdate}

/-- While the replica is leader, the maps have entries for the same servers. -/
def Aligned (r : Replica) : Prop :=
  r.state.role = .leader → r.state.nextIndex.servers = r.peers.servers ∧
    r.state.matchIndex.servers = r.peers.servers

/-- Every thread that has not returned has a client for the server it asks. -/
structure HasClients (r : Replica) : Prop where
  voters : ∀ t ∈ r.voteThreads, t.finished = false → t.peer ∈ r.peers
  senders : ∀ t ∈ r.appendThreads, t.finished = false → t.peer ∈ r.peers

structure InStep (r : Replica) : Prop extends HasClients r where
  aligned : r.Aligned

/-- No thread is running for a peer that is to be removed. -/
def Spares (r : Replica) : PeerUpdate → Prop
  | .addPeer _ => True
  | .removePeer peerId => (∀ t ∈ r.voteThreads, t.finished = false → t.peer ≠ peerId) ∧
      ∀ t ∈ r.appendThreads, t.finished = false → t.peer ≠ peerId

instance (r : Replica) (u : PeerUpdate) : Decidable (r.Spares u) :=
  match u with
  | .addPeer _ => inferInstanceAs (Decidable True)
  | .removePeer _ => inferInstanceAs (Decidable (_ ∧ _))

/-- The maps stay aligned, and the peers are as they were but for the update. -/
structure Tabled (u : Option PeerUpdate) (r r' : Replica) : Prop where
  aligned : r.Aligned → r'.Aligned
  peers : r'.peers = (u.elim r r.updatePeers).peers

theorem Tabled.congr {x : Replica} (h : Tabled u r r') (state : x.state = r'.state)
    (peers : x.peers = r'.peers) : Tabled u r x := by
  refine ⟨fun old => ?_, peers.trans h.peers⟩
  have aligned := h.aligned old
  unfold Aligned at aligned ⊢
  rwa [state, peers]

theorem Tabled.same (role : r'.state.role = .leader → r.state.role = .leader)
    (nextIndex : r'.state.nextIndex = r.state.nextIndex)
    (matchIndex : r'.state.matchIndex = r.state.matchIndex) (peers : r'.peers = r.peers) :
    Tabled none r r' := by
  refine ⟨fun old leads => ?_, peers⟩
  rw [nextIndex, matchIndex, peers]
  exact old (role leads)

theorem Tabled.resigns (role : r'.state.role ≠ .leader) (peers : r'.peers = r.peers) :
    Tabled none r r' :=
  ⟨fun _ leads => absurd leads role, peers⟩

theorem Grows.tabled (h : Grows r r') : Tabled none r r' :=
  .same (fun leads => h.role ▸ leads) h.nextIndex h.matchIndex h.peers

theorem updatePeers_tabled (r : Replica) (u : PeerUpdate) :
    Tabled (some u) r (r.updatePeers u) := by
  refine ⟨fun old leads => ?_, rfl⟩
  cases u with
  | addPeer p =>
      obtain ⟨next, matched⟩ := old leads
      simp only [updatePeers, addPeer, RaftState.persist, IntMap.servers_insert]
      rw [next, matched]
      exact ⟨rfl, rfl⟩
  | removePeer p =>
      obtain ⟨next, matched⟩ := old leads
      simp only [updatePeers, removePeer, IntMap.servers_erase]
      rw [next, matched]
      exact ⟨rfl, rfl⟩

theorem servers_foldl_insert (v : Int) (ps : List Int) (m : IntMap Int) :
    IntMap.servers (ps.foldl (fun m p => m.insert p v) m) = ps.toFinset ∪ m.servers := by
  induction ps generalizing m with
  | nil => simp
  | cons p ps ih =>
      rw [List.foldl_cons, ih, IntMap.servers_insert, List.toFinset_cons, Finset.union_insert,
        Finset.insert_union]

theorem becomeLeader_tabled (r : Replica) (votes : Int) (now : Int) :
    Tabled none r { r with
      state := { r.state with votesReceived := votes }.becomeLeader r.id r.peers.keys now } := by
  have all (v : Int) : IntMap.servers (r.peers.keys.foldl (fun m p => m.insert p v) ∅) =
      r.peers.servers := by
    rw [servers_foldl_insert]
    exact Finset.union_empty _
  exact ⟨fun _ _ => ⟨all _, all _⟩, rfl⟩

theorem electionTick_tabled (r : Replica) (now timeout : Int) :
    Tabled none r (r.electionTick now timeout) := by
  unfold electionTick
  split
  · exact .resigns (by simp [startElection, RaftState.becomeCandidate, RaftState.persist]) rfl
  · exact .same (fun leads => leads) rfl rfl rfl

theorem requestVote_tabled (r : Replica) (args : RequestVoteParams) (now : Int) :
    Tabled none r (r.requestVote args now).1 := by
  simp only [requestVote, observeTerm]
  split
  · exact .same (fun leads => leads) rfl rfl rfl
  · by_cases later : args.term > r.state.currentTerm
    · simp only [if_pos later]
      split <;> exact .resigns (by simp [RaftState.becomeFollower, RaftState.persist]) rfl
    · simp only [if_neg later]
      split <;> exact .same (fun leads => leads) rfl rfl rfl

theorem voteReply_tabled (r : Replica) (saved : Int) (reply : RequestVoteRet) (now : Int) :
    Tabled none r (r.voteReply saved reply now) := by
  rcases r.voteReply_cases saved reply now with
    ⟨e, _⟩ | ⟨_, _, e⟩ | ⟨_, _, ⟨_, e⟩ | ⟨_, s, hs, e⟩⟩
  · exact .same (fun leads => e ▸ leads) (by rw [e]) (by rw [e]) (by rw [e])
  · rw [e]
    exact .resigns (by simp [RaftState.becomeFollower, RaftState.persist]) rfl
  · rw [e]
    exact .same (fun leads => leads) rfl rfl rfl
  · rw [e, hs]
    exact (r.becomeLeader_tabled (r.state.votesReceived + 1) now).congr rfl rfl

theorem appendEntries_tabled (r : Replica) (args : AppendEntriesParams) (now : Int)
    (bare : ∀ e ∈ args.entries, e.op.promiseHandle = none) :
    Tabled none r (r.appendEntries args now).1 := by
  obtain ⟨next, matched⟩ := r.appendEntries_maps args now bare
  have peers := (r.quiet_appendEntries args now).peers
  refine .same (fun leads => ?_) next matched peers
  rw [← (r.appendEntries_logs args now (leads ▸ nofun)).2.1]
  exact leads

/-- The scan for a new commit index finds entries for all peers. -/
theorem commitScan_matchIndex {id : Int} {peers : List Int} {s : RaftState}
    (all : ∀ p ∈ peers, p ∈ s.matchIndex) :
    (commitScan id peers s).matchIndex = s.matchIndex := by
  have count (i : Int) (ps : List Int) {m : IntMap Int} (all : ∀ p ∈ ps, p ∈ m) :
      (countMatches i ps m).2 = m := by
    induction ps with
    | nil => rfl
    | cons p ps ih =>
        obtain ⟨here, later⟩ := List.forall_mem_cons.mp all
        have still : (m.subscript p 0).2 = m := IntMap.subscript_of_mem here
        simp only [countMatches, still]
        exact ih later
  have step (i : Int) {t : RaftState} (same : t.matchIndex = s.matchIndex) :
      (commitStep id peers t i).matchIndex = s.matchIndex := by
    have counted := count i peers (m := t.matchIndex) (same ▸ all)
    unfold commitStep
    split
    · dsimp only
      rw [apply_ite RaftState.matchIndex, ite_self]
      exact counted.trans same
    · exact same
  unfold commitScan
  generalize List.range _ = js
  suffices fold : ∀ t : RaftState, t.matchIndex = s.matchIndex →
      (js.foldl (fun t (j : Nat) => commitStep id peers t (s.commitIndex + 1 + j)) t).matchIndex =
        s.matchIndex from fold s rfl
  intro t same
  induction js generalizing t with
  | nil => exact same
  | cons j js ih => exact ih _ (step _ same)

theorem appendReply_tabled (r : Replica) {id : Int} (client : id ∈ r.peers)
    (saved nextIndex : Int) (n : ℕ) (reply : AppendEntriesRet) (now : Int) :
    Tabled none r (r.appendReply id saved nextIndex n reply now) := by
  have still (s : Finset Int) (same : s = r.peers.servers) : insert id s = r.peers.servers := by
    rw [same]
    exact Finset.insert_eq_of_mem ((IntMap.mem_servers _).mpr client)
  have aligned (leads : r.state.role = .leader) (old : r.Aligned) :
      IntMap.servers (r.state.nextIndex.insert id (nextIndex + n)) = r.peers.servers ∧
        (commitScan r.id r.peers.keys { r.state with
          nextIndex := r.state.nextIndex.insert id (nextIndex + n)
          matchIndex := r.state.matchIndex.insert id (nextIndex + n - 1) }).matchIndex.servers =
            r.peers.servers := by
    obtain ⟨next, matched⟩ := old leads
    have filled := (IntMap.servers_insert r.state.matchIndex id (nextIndex + n - 1)).trans
      (still _ matched)
    refine ⟨(IntMap.servers_insert _ _ _).trans (still _ next), ?_⟩
    rw [commitScan_matchIndex fun p hp => (IntMap.mem_servers _).mp
      (filled ▸ (IntMap.mem_servers _).mpr (AList.mem_keys.mpr hp))]
    exact filled
  refine appendReply_elim r id saved nextIndex n reply now ?down ?idle ?refused ?matched ?committed
  case down =>
    exact fun _ => .resigns (by simp [RaftState.becomeFollower, RaftState.persist]) rfl
  case idle => exact fun _ _ => .same (fun leads => leads) rfl rfl rfl
  case refused =>
    refine fun _ _ _ => ⟨fun old leads => ?_, rfl⟩
    obtain ⟨next, matched⟩ := old leads
    exact ⟨(IntMap.servers_insert _ _ _).trans (still _ next), matched⟩
  case matched =>
    rintro leads _ _ m rfl
    exact ⟨fun old _ => aligned leads old, rfl⟩
  case committed =>
    rintro leads _ _ m i rfl _ _ s rfl
    exact ⟨fun old _ => aligned leads old, rfl⟩

theorem HasClients.spares (h : r'.HasClients) {u : PeerUpdate}
    (peers : r'.peers = (r.updatePeers u).peers) (votes : r'.voteThreads = r.voteThreads)
    (appends : r'.appendThreads = r.appendThreads) : r.Spares u := by
  cases u with
  | addPeer p => exact True.intro
  | removePeer p =>
      have gone : p ∉ r'.peers := by
        rw [peers]
        exact fun mem => (AList.mem_erase.mp mem).1 rfl
      exact ⟨fun t ht running e => gone (e ▸ h.voters t (votes ▸ ht) running),
        fun t ht running e => gone (e ▸ h.senders t (appends ▸ ht) running)⟩

/-- Clients are lost to threads by removals only. -/
theorem HasClients.updated (h : r.HasClients) (spared : ∀ v ∈ u, r.Spares v)
    (peers : r'.peers = (u.elim r r.updatePeers).peers)
    (votes : ∀ t ∈ r'.voteThreads, t.finished = false →
      (∃ s ∈ r.voteThreads, s.finished = false ∧ s.peer = t.peer) ∨
        (u = none ∧ t.peer ∈ r.peers))
    (appends : ∀ t ∈ r'.appendThreads, t.finished = false →
      (∃ s ∈ r.appendThreads, s.finished = false ∧ s.peer = t.peer) ∨
        (u = none ∧ t.peer ∈ r.peers)) : r'.HasClients := by
  cases u with
  | none =>
      refine ⟨fun t ht running => ?_, fun t ht running => ?_⟩ <;> rw [peers]
      · rcases votes t ht running with ⟨s, hs, runs, same⟩ | ⟨_, client⟩
        · exact same ▸ h.voters s hs runs
        · exact client
      · rcases appends t ht running with ⟨s, hs, runs, same⟩ | ⟨_, client⟩
        · exact same ▸ h.senders s hs runs
        · exact client
  | some v =>
      have spared := spared v rfl
      have kept {p : Int} (client : p ∈ r.peers) (other : ∀ q, v = .removePeer q → p ≠ q) :
          p ∈ r'.peers := by
        rw [peers]
        cases v with
        | addPeer q => exact (AList.mem_insert r.peers).mpr (Or.inr client)
        | removePeer q => exact AList.mem_erase.mpr ⟨other q rfl, client⟩
      refine ⟨fun t ht running => ?_, fun t ht running => ?_⟩
      · rcases votes t ht running with ⟨s, hs, runs, same⟩ | ⟨none, _⟩
        · refine kept (same ▸ h.voters s hs runs) fun q e => ?_
          subst e
          exact same ▸ spared.1 s hs runs
        · cases none
      · rcases appends t ht running with ⟨s, hs, runs, same⟩ | ⟨none, _⟩
        · refine kept (same ▸ h.senders s hs runs) fun q e => ?_
          subst e
          exact same ▸ spared.2 s hs runs
        · cases none

end Replica

namespace Cluster
open Replica (Tabled)
variable {c c' : Cluster} {a : Action} {q : Int}

/-- The change that the step makes to the peers of `q`. -/
def peerUpdate (c : Cluster) (q : Int) : Action → Option PeerUpdate
  | .raftImpl r => if q = r then (c.node r).raftThread.pending else none
  | .appendResume p j => if q = p then (c.node p).handlers[j]?.bind (·.update) else none
  | _ => none

theorem peerUpdate_replica {u : PeerUpdate} (h : u ∈ c.peerUpdate q a) : q = a.replica := by
  cases a with
  | raftImpl r | appendResume p j => exact (Option.ite_none_right_eq_some.mp h).1
  | _ => cases h

/-- A peer is removed when no thread is running for it. -/
def SparesThreads (c : Cluster) (a : Action) : Prop :=
  ∀ u ∈ c.peerUpdate a.replica a, (c.node a.replica).Spares u

instance (c : Cluster) (a : Action) : Decidable (c.SparesThreads a) :=
  inferInstanceAs (Decidable (∀ _ ∈ _, _))

/-- Between two steps the maps of each leader have entries for the same servers, and each thread
that has not returned has a client. -/
def InStep (c : Cluster) : Prop := ∀ q, (c.node q).InStep

theorem set_tabled {u : Option PeerUpdate} {r : Int} {x : Replica} (none : q ≠ r → u = none)
    (h : q = r → Tabled u (c.node r) x) : Tabled u (c.node q) ((c.set r x).node q) :=
  set_cases (fun here => here ▸ h here) fun there => none there ▸ (Replica.Grows.refl _).tabled

theorem Transition.tabled (tr : Transition c a c') (bare : ∀ p, (c.node p).Bare)
    (clients : (c.node q).HasClients) :
    Tabled (c.peerUpdate q a) (c.node q) (c'.node q) := by
  have grows (abides : c.Abides .growing a) : Tabled none (c.node q) (c'.node q) :=
    (Replica.Changes.grows (tr.changes bare abides q)).tabled
  cases tr with
  | electionTick r now timeout =>
      exact set_tabled (fun _ => rfl) fun _ => Replica.electionTick_tabled _ _ _
  | voteDeliver r k now t args _ _ _ =>
      exact (set_tabled (fun _ => rfl) fun _ => Replica.requestVote_tabled _ _ _).congr
        (pushVoteReply_state _ _ _ _ _)
          (pushVoteReply_same (·.peers) (fun _ _ _ => rfl) _ _ _ _)
  | voteReturn r k reply now t ht _ _ =>
      exact set_tabled (fun _ => rfl) fun _ => (Replica.voteReply_tabled _ _ _ _).congr rfl rfl
  | raftImpl r =>
      by_cases here : q = r
      · subst here
        cases thread : (c.node q).raftThread with
        | updatingPeers saved u rest =>
            have made : c.peerUpdate q (.raftImpl q) = some u := by
              rw [peerUpdate, if_pos rfl, thread]
              rfl
            rw [made, set_node, Function.update_self, Replica.raftImpl, thread]
            exact (Replica.updatePeers_tabled _ u).congr rfl rfl
        | _ =>
            have quiet : c.peerUpdate q (.raftImpl q) = none := by
              rw [peerUpdate, if_pos rfl, thread]
              rfl
            rw [quiet]
            refine grows ⟨True.intro, fun _ => True.intro, fun saved u rest updates => ?_⟩
            rw [thread] at updates
            cases updates
      · exact set_tabled (fun _ => if_neg here) fun e => absurd e here
  | appendSend r k junk t _ _ _ client =>
      refine set_tabled (fun _ => rfl) fun _ => ⟨fun old leads => ?_, rfl⟩
      obtain ⟨next, matched⟩ := old leads
      have there : t.peer ∈ (c.node r).state.nextIndex :=
        (IntMap.mem_servers _).mp (next ▸ (IntMap.mem_servers _).mpr client)
      refine ⟨?_, matched⟩
      exact (congrArg IntMap.servers (IntMap.subscript_of_mem there)).trans next
  | appendDeliver r k now t args ht ha _ =>
      exact (set_tabled (fun _ => rfl) fun _ => Replica.appendEntries_tabled _ args now
        ((bare r).threads t (List.mem_of_getElem? ht) args ha)).congr
          (settleAppend_state _ _ _ _ _ _ _ _)
          (settleAppend_same (·.peers) (fun _ _ _ => rfl) (fun _ _ => rfl) _ _ _ _ _ _ _)
  | appendUpdate p j h peer hj hu =>
      have made (e : q = p) : c.peerUpdate q (.appendResume p j) = some peer := by
        rw [peerUpdate, if_pos e, hj]
        exact hu
      refine set_tabled (fun ne => if_neg ne) fun e => ?_
      rw [made e]
      exact (Replica.updatePeers_tabled _ peer).congr rfl rfl
  | appendResume p j h hj hu =>
      have quiet : c.peerUpdate q (.appendResume p j) = none := by
        rw [peerUpdate, hj]
        exact (if_congr Iff.rfl hu rfl).trans (ite_self _)
      rw [quiet]
      refine grows fun x hx => ?_
      obtain rfl : x = h := Option.some.inj (hx.symm.trans hj)
      refine ⟨fun u some => ?_, fun _ _ _ => True.intro⟩
      rw [hu] at some
      cases some
  | appendReturn r k reply now t args ht _ running _ =>
      refine set_tabled (fun _ => rfl) fun e => ?_
      subst e
      exact (Replica.appendReply_tabled _ (clients.senders t (List.mem_of_getElem? ht) running)
        _ _ _ _ _).congr rfl rfl
  | callStep r j now call p hc hp =>
      refine set_tabled (fun _ => rfl) fun _ => ?_
      rcases Replica.advance_cases hp with ⟨_, e⟩ | ⟨up, _⟩
      · rw [e]
        exact .resigns (by simp [RaftState.becomeFollower, RaftState.persist]) rfl
      · have changes := @Replica.advance_changes .growing (c.node r) now j call p hc True.intro
          (fun _ => True.intro) up hp
        exact (Replica.Changes.grows changes).tabled.congr rfl rfl
  | _ => exact grows (by simp [Abides, Replica.Rules.growing])

/-- Where a vote thread that is running comes from. -/
theorem Transition.voter (tr : Transition c a c') {t : VoteThread}
    (mem : t ∈ (c'.node q).voteThreads) (running : t.finished = false) :
    (∃ s ∈ (c.node q).voteThreads, s.finished = false ∧ s.peer = t.peer) ∨
      (c.peerUpdate q a = none ∧ t.peer ∈ (c.node q).peers) := by
  have old {d : Cluster} (h : t ∈ (d.node q).voteThreads)
      (same : (d.node q).voteThreads = (c.node q).voteThreads) :
      (∃ s ∈ (c.node q).voteThreads, s.finished = false ∧ s.peer = t.peer) ∨
        (c.peerUpdate q a = none ∧ t.peer ∈ (c.node q).peers) :=
    Or.inl ⟨t, same ▸ h, running, rfl⟩
  have set {r : Int} {x : Replica} (same : x.voteThreads = (c.node r).voteThreads) :
      ((c.set r x).node q).voteThreads = (c.node q).voteThreads := set_same (·.voteThreads) same q
  have modify {d : Cluster} {r : Int} {x : Replica} {k : ℕ} {f : VoteThread → VoteThread}
      (h : t ∈ ((d.set r (x.updateVoteThread k f)).node q).voteThreads)
      (goes : ∀ s, (f s).finished = false → s.finished = false ∧ s.peer = (f s).peer)
      (same : q = r → x.voteThreads = (c.node q).voteThreads)
      (others : (d.node q).voteThreads = (c.node q).voteThreads) :
      (∃ s ∈ (c.node q).voteThreads, s.finished = false ∧ s.peer = t.peer) ∨
        (c.peerUpdate q a = none ∧ t.peer ∈ (c.node q).peers) := by
    by_cases e : q = r
    · rw [set_node, e, Function.update_self] at h
      change t ∈ x.voteThreads.modify k f at h
      rw [same e] at h
      rcases List.mem_or_eq_of_mem_modify h with mem | ⟨s, hs, rfl⟩
      · exact Or.inl ⟨t, mem, running, rfl⟩
      · exact Or.inl ⟨s, List.mem_of_getElem? hs, goes s running⟩
    · rw [set_node, Function.update_of_ne e] at h
      exact old h others
  have settle {p owner : Int} {k : ℕ} {args : AppendEntriesParams} {x : Replica}
      {outcome : Replica.AppendOutcome} (same : x.voteThreads = (c.node p).voteThreads) :
      ((c.settleAppend p owner k args x outcome).node q).voteThreads = (c.node q).voteThreads :=
    (settleAppend_same (·.voteThreads) (fun _ _ _ => rfl) (fun _ _ => rfl) p owner k args x outcome
      q).trans (set same)
  cases tr with
  | electionTick r now timeout =>
      by_cases e : q = r
      · subst e
        rw [set_node, Function.update_self, Replica.electionTick] at mem
        split at mem
        · rcases List.mem_append.mp mem with mem | new
          · exact Or.inl ⟨t, mem, running, rfl⟩
          · obtain ⟨p, hp, rfl⟩ := List.mem_map.mp new
            exact Or.inr ⟨rfl, AList.mem_keys.mpr hp⟩
        · exact Or.inl ⟨t, mem, running, rfl⟩
      · exact old mem (by rw [set_node, Function.update_of_ne e])
  | voteSend r k s _ _ _ _ =>
      exact modify mem (fun _ h => ⟨h, rfl⟩) (fun e => by rw [e]) rfl
  | voteDeliver r k now s args _ _ _ =>
      have quiet := set ((c.node s.peer).requestVote_id args now).2.1
      exact modify mem (fun _ h => ⟨h, rfl⟩) (fun e => e ▸ quiet) quiet
  | voteReturn r k reply now s _ _ _ =>
      have same : ((c.node r).voteReply s.savedCurrentTerm reply now).voteThreads =
          (c.node r).voteThreads := by
        rcases (c.node r).voteReply_cases s.savedCurrentTerm reply now with
          ⟨e, _⟩ | ⟨_, _, e⟩ | ⟨_, _, ⟨_, e⟩ | ⟨_, _, _, e⟩⟩ <;> rw [e]
      exact modify mem (fun _ h => (by cases h)) (fun e => e ▸ same) rfl
  | voteFail r k s _ _ =>
      exact modify mem (fun _ h => (by cases h)) (fun e => by rw [e]) rfl
  | raftImpl r => exact old mem (set (Replica.keeps_raftImpl _).voteThreads)
  | appendDeliver r k now s args _ _ _ =>
      exact old mem (settle ((c.node s.peer).quiet_appendEntries args now).voteThreads)
  | appendUpdate p j h peer _ _ => cases peer <;> exact old mem (set rfl)
  | appendResume p j h _ _ =>
      exact old mem (settle ((Replica.quiet_checkIndex
        { c.node p with handlers := (c.node p).handlers.eraseIdx j } h.current).trans
        (Replica.quiet_appendRest _ h.args h.rest)).voteThreads)
  | appendReturn r k reply now s args _ _ _ _ =>
      refine old mem (set ?_)
      rcases (c.node r).appendReply_cases s.peer s.savedCurrentTerm s.nextIndex
        args.entries.length reply now with ⟨_, e⟩ | ⟨_, quiet⟩
      · rw [e]
        rfl
      · exact quiet.voteThreads
  | executer r ok => exact old mem (set (Replica.quiet_executer _ ok).voteThreads)
  | clientGet r key | clientPut r key value =>
      exact old mem (set (Replica.quiet_clientCall _ _).voteThreads)
  | addServer r args => exact old mem (set (Replica.quiet_addServer _ args).voteThreads)
  | removeServer r serverId =>
      exact old mem (set (Replica.quiet_removeServer _ serverId).voteThreads)
  | callStep r j now call p _ hp =>
      refine old mem (set (x := { p.1 with calls := _ }) ?_)
      rcases Replica.advance_cases hp with ⟨_, e⟩ | ⟨_, quiet⟩
      · rw [e]
      · exact quiet.voteThreads
  | appendSend r k junk s _ _ _ _ | appendFail r k s _ _ => exact old mem (set rfl)

/-- Where a sender thread that is running comes from. -/
theorem Sender.running {t : AppendThread} (s : Sender c a q t) (running : t.finished = false) :
    (∃ s ∈ (c.node q).appendThreads, s.finished = false ∧ s.peer = t.peer) ∨
      (c.peerUpdate q a = none ∧ t.peer ∈ (c.node q).peers) := by
  cases s with
  | goesOn t replies finished mem unfinished _ =>
      exact Or.inl ⟨t, mem, unfinished running, rfl⟩
  | sends k junk t _ ht _ unfinished _ =>
      exact Or.inl ⟨t, List.mem_of_getElem? ht, unfinished, rfl⟩
  | starts saved p ha thread client =>
      subst ha
      refine Or.inr ⟨?_, client⟩
      rw [peerUpdate, if_pos rfl, thread]
      rfl

/-- A change of the peers leaves the threads alone. -/
theorem Transition.update_threads (tr : Transition c a c') {u : PeerUpdate}
    (hu : u ∈ c.peerUpdate q a) : (c'.node q).voteThreads = (c.node q).voteThreads ∧
      (c'.node q).appendThreads = (c.node q).appendThreads := by
  cases tr with
  | raftImpl r =>
      obtain ⟨here, pending⟩ := Option.ite_none_right_eq_some.mp hu
      subst here
      rw [set_node, Function.update_self, Replica.raftImpl]
      cases thread : (c.node q).raftThread with
      | updatingPeers saved v rest => cases v <;> exact ⟨rfl, rfl⟩
      | _ =>
          rw [thread] at pending
          cases pending
  | appendUpdate p j h peer _ _ =>
      obtain ⟨here, _⟩ := Option.ite_none_right_eq_some.mp hu
      subst here
      rw [set_node, Function.update_self]
      cases peer <;> exact ⟨rfl, rfl⟩
  | appendResume p j h hj none =>
      obtain ⟨_, pending⟩ := Option.ite_none_right_eq_some.mp hu
      rw [hj, Option.bind_some, none] at pending
      cases pending
  | _ => cases hu

/-- A step keeps the maps in step just when it removes no peer that a thread is running for. -/
theorem step_inStep_iff (hs : c.step a = some c') (bare : ∀ p, (c.node p).Bare) (h : c.InStep) :
    c'.InStep ↔ c.SparesThreads a := by
  have tr := (Transition.of_step hs).2
  have tabled (q : Int) := tr.tabled bare (h q).toHasClients
  constructor
  · intro after u hu
    obtain ⟨votes, appends⟩ := tr.update_threads hu
    have peers := (tabled a.replica).peers
    rw [show c.peerUpdate a.replica a = some u from hu] at peers
    exact (after a.replica).spares peers votes appends
  · intro spares q
    have spared : ∀ u ∈ c.peerUpdate q a, (c.node q).Spares u := by
      intro u hu
      obtain rfl := peerUpdate_replica hu
      exact spares u hu
    exact ⟨(h q).updated spared (tabled q).peers (fun _ ht => tr.voter ht)
      fun _ ht => (tr.sender ht).running, (tabled q).aligned (h q).aligned⟩

theorem initialise_inStep (id : Int) (config : IntMap ServerInfo) :
    (Replica.initialise id config).InStep := by
  have fresh := Replica.initialise_fresh id config
  refine ⟨⟨?_, ?_⟩, fun leads => ?_⟩
  · rw [fresh.voteThreads]
    exact fun _ ht => absurd ht List.not_mem_nil
  · rw [fresh.appendThreads]
    exact fun _ ht => absurd ht List.not_mem_nil
  · rw [fresh.role] at leads
    cases leads

end Cluster

namespace LoopingCluster
open Cluster (threeServers plainElection submitPut)
variable {s s' : LoopingCluster} {e : LoopingAction}

/-- Between two steps the maps of each leader have entries for the same servers, each thread that
has not returned has a client, and so has the peer at which a loop over `peers_` stands. -/
structure InStep (s : LoopingCluster) : Prop where
  maps : s.cluster.InStep
  standing : ∀ r, ∀ p ∈ (s.loop r).peer?, p ∈ (s.cluster.node r).peers

/-- A peer is removed when no thread is running for it, and when the loop that creates the sender
threads does not stand at it. -/
def SparesThreads (s : LoopingCluster) : LoopingAction → Prop
  | .step a => s.cluster.SparesThreads a ∧ ∀ u ∈ s.cluster.peerUpdate a.replica a,
      ∀ p ∈ (s.loop a.replica).peer?, u ≠ .removePeer p
  | .loop _ => True

instance (s : LoopingCluster) (e : LoopingAction) : Decidable (s.SparesThreads e) :=
  match e with
  | .step _ => inferInstanceAs (Decidable (_ ∧ ∀ _ ∈ _, ∀ _ ∈ _, _))
  | .loop _ => inferInstanceAs (Decidable True)

/-- A change of the peers takes the entry away from a loop just when it removes it. -/
theorem stands_iff {r r' : Replica} {u : Option PeerUpdate} {p : Int} (client : p ∈ r.peers)
    (peers : r'.peers = (u.elim r r.updatePeers).peers) :
    p ∈ r'.peers ↔ ∀ v ∈ u, v ≠ .removePeer p := by
  rw [peers]
  cases u with
  | none => exact iff_of_true client fun _ none => by cases none
  | some v =>
      simp only [Option.elim_some, Option.mem_def, Option.some.injEq, forall_eq']
      cases v with
      | addPeer q => exact iff_of_true ((AList.mem_insert r.peers).mpr (Or.inr client)) nofun
      | removePeer q =>
          refine AList.mem_erase.trans ⟨fun kept same => ?_, fun other => ⟨?_, client⟩⟩
          · exact kept.1 (PeerUpdate.removePeer.inj same).symm
          · exact fun same => other (congrArg _ same.symm)

/-- A loop and its replica are changed together. -/
theorem InStep.standing_set (h : s.InStep) {r : Int} {x : Replica} {l : SenderLoop}
    (here : ∀ p ∈ l.peer?, p ∈ x.peers) (q : Int) :
    ∀ p ∈ (Function.update s.loop r l q).peer?, p ∈ ((s.cluster.set r x).node q).peers := by
  refine Cluster.set_cases (P := fun y => ∀ p ∈ (Function.update s.loop r l q).peer?, p ∈ y.peers)
    (fun e => ?_) fun other => ?_
  · rwa [e, Function.update_self]
  · rw [Function.update_of_ne other]
    exact h.standing q

theorem InStep.moved (h : s.InStep) (r : Int) {next : Option Int}
    (member : ∀ p ∈ next, p ∈ (s.cluster.node r).peers) : (s.move r next).InStep := by
  cases next with
  | some p =>
      refine ⟨h.maps, fun q => ?_⟩
      have standing := h.standing_set (r := r) (x := s.cluster.node r) (l := .creating p)
        (fun x same => member x same) q
      rwa [Cluster.set_node, Function.update_eq_self] at standing
  | none =>
      refine ⟨fun q => Cluster.set_cases (fun _ => ?_) fun _ => h.maps q,
        h.standing_set fun _ none => by cases none⟩
      exact ⟨⟨(h.maps r).voters, (h.maps r).senders⟩, (h.maps r).aligned⟩

/-- The loop moves its iterator, or creates the thread for the peer at which it stands. -/
theorem loopStep_cases {r : Int} (hs : s.loopStep r = some s') :
    (∃ next, (∀ p ∈ next, p ∈ (s.cluster.node r).peers) ∧ s' = s.move r next) ∨
    ∃ saved p, s.loop r = .creating p ∧ s' = {
      cluster := s.cluster.set r { s.cluster.node r with
        appendThreads := (s.cluster.node r).appendThreads ++
          [{ peer := p, savedCurrentTerm := saved }] }
      loop := Function.update s.loop r (.advancing p) } := by
  unfold loopStep at hs
  split at hs
  · next saved _ =>
    dsimp only at hs
    split at hs
    · refine Or.inl ⟨_, fun p first => ?_, (Option.some.inj hs).symm⟩
      exact AList.mem_keys.mpr (List.min?_mem first)
    · next p stands => exact Or.inr ⟨saved, p, stands, (Option.some.inj hs).symm⟩
    · refine Or.inl ⟨_, fun p later => ?_, (Option.some.inj hs).symm⟩
      exact AList.mem_keys.mpr (List.mem_of_mem_filter (List.min?_mem later))
  · cases hs

/-- The loop creates threads for peers, and changes none of the maps. -/
theorem InStep.looped {r : Int} (h : s.InStep) (hs : s.loopStep r = some s') : s'.InStep := by
  rcases loopStep_cases hs with ⟨next, member, rfl⟩ | ⟨saved, p, stands, rfl⟩
  · exact h.moved r member
  · have client : p ∈ (s.cluster.node r).peers := h.standing r p (by rw [stands]; rfl)
    refine ⟨fun q => Cluster.set_cases (fun _ => ?_) fun _ => h.maps q,
      h.standing_set fun x same => ?_⟩
    · refine ⟨⟨(h.maps r).voters, fun t ht running => ?_⟩, (h.maps r).aligned⟩
      rcases List.mem_append.mp ht with old | new
      · exact (h.maps r).senders t old running
      · rw [List.mem_singleton.mp new]
        exact client
    · obtain rfl := Option.some.inj same
      exact client

theorem step_cases (hs : s.step e = some s') :
    (∃ a c, e = .step a ∧ s.inLoop a ≠ true ∧ s.cluster.step a = some c ∧
      s' = { s with cluster := c }) ∨
    ∃ r, e = .loop r ∧ s.loopStep r = some s' := by
  cases e with
  | step a =>
      obtain ⟨out, hs⟩ := Option.ite_none_left_eq_some.mp hs
      obtain ⟨c, hc, rfl⟩ := Option.map_eq_some_iff.mp hs
      exact Or.inl ⟨a, c, rfl, out, hc, rfl⟩
  | loop r => exact Or.inr ⟨r, rfl, (Option.ite_none_right_eq_some.mp hs).2⟩

/-- A step keeps the maps in step just when it removes no peer that a thread is running for, or
that the loop stands at. -/
theorem step_inStep_iff (hs : s.step e = some s') (bare : ∀ p, (s.cluster.node p).Bare)
    (h : s.InStep) : s'.InStep ↔ s.SparesThreads e := by
  rcases step_cases hs with ⟨a, c, rfl, _, hc, rfl⟩ | ⟨r, rfl, looped⟩
  · have tr := (Cluster.Transition.of_step hc).2
    have maps := Cluster.step_inStep_iff hc bare h.maps
    have stands (q p : Int) (at_ : p ∈ (s.loop q).peer?) : p ∈ (c.node q).peers ↔
        ∀ u ∈ s.cluster.peerUpdate q a, u ≠ .removePeer p :=
      stands_iff (h.standing q p at_) (tr.tabled bare (h.maps q).toHasClients).peers
    constructor
    · exact fun after => ⟨maps.mp after.maps, fun u hu p at_ =>
        (stands a.replica p at_).mp (after.standing a.replica p at_) u hu⟩
    · rintro ⟨spares, others⟩
      refine ⟨maps.mpr spares, fun q p at_ => (stands q p at_).mpr fun u hu => ?_⟩
      obtain rfl := Cluster.peerUpdate_replica hu
      exact others u hu p at_
  · exact iff_of_true (h.looped looped) True.intro

theorem bare_preserved (bare : ∀ p, (s.cluster.node p).Bare) (hs : s.step e = some s') (q : Int) :
    (s'.cluster.node q).Bare := by
  rcases step_cases hs with ⟨a, c, rfl, _, hc, rfl⟩ | ⟨r, rfl, looped⟩
  · have tr := (Cluster.Transition.of_step hc).2
    exact (bare q).changes (tr.changes bare (s.cluster.abides_free a) q)
  · rcases loopStep_cases looped with ⟨next, _, rfl⟩ | ⟨saved, p, _, rfl⟩
    · cases next with
      | some p => exact bare q
      | none =>
          exact Cluster.set_cases (fun _ => ⟨(bare r).threads, (bare r).handlers⟩) fun _ => bare q
    · refine Cluster.set_cases (fun _ => ⟨fun t ht args sent => ?_, (bare r).handlers⟩)
        fun _ => bare q
      rcases List.mem_append.mp ht with old | new
      · exact (bare r).threads t old args sent
      · rw [List.mem_singleton.mp new] at sent
        cases sent

theorem bare {servers : List Int} {config : Int → IntMap ServerInfo}
    {h : List (LoopingCluster × LoopingAction)} (run : Run step (launch servers config) h s) :
    ∀ q, (s.cluster.node q).Bare :=
  run.always (I := fun s => ∀ q, (s.cluster.node q).Bare)
    (fun q => Cluster.initialise_bare q (config q)) fun _ _ _ bare hs => bare_preserved bare hs

theorem launch_inStep (servers : List Int) (config : Int → IntMap ServerInfo) :
    (launch servers config).InStep :=
  ⟨fun q => Cluster.initialise_inStep q (config q), fun _ => nofun⟩

/-- The maps stay in step throughout a run just when no peer is removed that a thread is
running for, or that the loop which creates the sender threads stands at. -/
theorem inStep_iff_sparesThreads {servers : List Int} {config : Int → IntMap ServerInfo}
    {h : List (LoopingCluster × LoopingAction)} (run : Run step (launch servers config) h s) :
    (s.InStep ∧ ∀ p ∈ h, p.1.InStep) ↔ Meets SparesThreads h := by
  induction run with
  | start =>
      exact iff_of_true ⟨launch_inStep servers config, fun _ p => absurd p List.not_mem_nil⟩
        fun _ p => absurd p List.not_mem_nil
  | @next h s s' e run hs ih =>
      rw [Meets.cons, ← ih, List.forall_mem_cons]
      constructor
      · exact fun ⟨after, before, past⟩ =>
          ⟨(step_inStep_iff hs (bare run) before).mp after, before, past⟩
      · exact fun ⟨spares, before, past⟩ =>
          ⟨(step_inStep_iff hs (bare run) before).mpr spares, before, past⟩

/-- Server 1 removes server 3, for which only a vote thread has run, and creates a sender
thread for server 2. -/
def removeThird : List LoopingAction :=
  (plainElection ++ [Action.removeServer 1 3, .callStep 1 0 0, .callStep 1 0 0] ++
    List.replicate 5 (Action.raftImpl 1)).map .step ++ List.replicate 3 (.loop 1)

theorem inStep_removeThird :
    let p := outcome step (launch [1, 2, 3] fun _ => threeServers) removeThird
    3 ∉ (p.2.cluster.node 1).peers ∧ (p.2.cluster.node 1).appendThreads.map (·.peer) = [2] ∧
      p.2.InStep ∧ ∀ q ∈ p.1, q.1.InStep :=
  ⟨by decide +kernel, by decide +kernel,
    (inStep_iff_sparesThreads (outcome_run _ _ _)).mpr (by decide +kernel)⟩

/-- Server 1 removes server 3 while it waits for its reply to a PUT. -/
def lateReply : List LoopingAction :=
  (plainElection ++ (submitPut 1 5 7).dropLast).map .step ++ List.replicate 5 (.loop 1) ++
    ([Action.appendSend 1 1 0, .appendDeliver 1 1 20, .removeServer 1 3, .callStep 1 1 0,
      .callStep 1 1 0] ++ List.replicate 6 (Action.raftImpl 1) ++
      [Action.appendReturn 1 1 ⟨1, true⟩ 21]).map .step

/-- The reply brings back the indices of server 3, which has no client any more. -/
theorem not_inStep : ¬ ∀ (servers : List Int) (config : Int → IntMap ServerInfo)
    (h : List (LoopingCluster × LoopingAction)) (s : LoopingCluster),
    Run step (launch servers config) h s → s.InStep := by
  intro always
  have aligned := ((always _ _ _ _
    (outcome_run step (launch [1, 2, 3] fun _ => threeServers) lateReply)).maps 1).aligned
  have leads : ((outcome step (launch [1, 2, 3] fun _ => threeServers) lateReply).2.cluster.node
    1).state.role = .leader := by decide +kernel
  have differ : ((outcome step (launch [1, 2, 3] fun _ => threeServers)
      lateReply).2.cluster.node 1).state.nextIndex.servers ≠
    ((outcome step (launch [1, 2, 3] fun _ => threeServers) lateReply).2.cluster.node
      1).peers.servers := by decide +kernel
  exact differ (aligned leads).1

end LoopingCluster
end OhMyDb
