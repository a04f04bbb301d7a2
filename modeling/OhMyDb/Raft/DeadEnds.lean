import OhMyDb.Raft.Alone

/-!
Dead ends. The loop of `electionImpl` starts an election at followers only, so a cluster
of candidates with no RPC under way stays one. What keeps a cluster out of there is the
outcome of the last RPC.
-/

namespace OhMyDb
open Execution

namespace Replica
variable {r r' : Replica} {config : IntMap ServerInfo}

/-- No RPC of the replica is under way, and none is half served. -/
def Idle (r : Replica) : Prop :=
  (∀ t ∈ r.voteThreads, t.finished = true) ∧ (∀ t ∈ r.appendThreads, t.finished = true) ∧
    r.handlers.length = 0

instance (r : Replica) : Decidable r.Idle := inferInstanceAs (Decidable (_ ∧ _ ∧ _))

/-- A candidate that waits for nothing. -/
def Stuck (r : Replica) : Prop := r.state.role = .candidate ∧ r.Idle

instance (r : Replica) : Decidable r.Stuck := inferInstanceAs (Decidable (_ ∧ _))

/-- The vote thread returns. -/
def finishVote (r : Replica) (k : Nat) : Replica :=
  r.updateVoteThread k fun t => { t with finished := true }

/-- The sender thread returns. -/
def finishAppend (r : Replica) (k : Nat) : Replica :=
  r.updateAppendThread k fun t => { t with finished := true }

theorem idle_congr
    (votes : r'.voteThreads.map (·.finished) = r.voteThreads.map (·.finished))
    (appends : r'.appendThreads.map (·.finished) = r.appendThreads.map (·.finished))
    (handlers : r'.handlers.length = r.handlers.length) : r'.Idle ↔ r.Idle := by
  have vote : (∀ t ∈ r'.voteThreads, t.finished = true) ↔ ∀ t ∈ r.voteThreads, t.finished = true :=
    calc _ ↔ ∀ b ∈ r'.voteThreads.map (·.finished), b = true := List.forall_mem_map.symm
      _ ↔ ∀ b ∈ r.voteThreads.map (·.finished), b = true := by rw [votes]
      _ ↔ _ := List.forall_mem_map
  have append : (∀ t ∈ r'.appendThreads, t.finished = true) ↔
      ∀ t ∈ r.appendThreads, t.finished = true :=
    calc _ ↔ ∀ b ∈ r'.appendThreads.map (·.finished), b = true := List.forall_mem_map.symm
      _ ↔ ∀ b ∈ r.appendThreads.map (·.finished), b = true := by rw [appends]
      _ ↔ _ := List.forall_mem_map
  rw [Idle, Idle, vote, append, handlers]

/-- Role and threads are as before. -/
theorem Stuck.congr (h : r'.Stuck) (role : r'.state.role = .candidate → r.state.role = .candidate)
    (votes : r'.voteThreads = r.voteThreads) (appends : r'.appendThreads = r.appendThreads)
    (handlers : r'.handlers = r.handlers) : r.Stuck :=
  ⟨role h.1, (idle_congr (by rw [votes]) (by rw [appends]) (by rw [handlers])).mp h.2⟩

theorem stuck_updateVoteThread {k : Nat} {f : VoteThread → VoteThread}
    (same : ∀ t, (f t).finished = t.finished) (h : (r.updateVoteThread k f).Stuck) : r.Stuck := by
  have votes : (r.updateVoteThread k f).voteThreads.map (·.finished) =
      r.voteThreads.map (·.finished) := List.map_modify_of_eq same
  exact ⟨h.1, (idle_congr votes rfl rfl).mp h.2⟩

theorem stuck_updateAppendThread {k : Nat} {f : AppendThread → AppendThread}
    (same : ∀ t, (f t).finished = t.finished) (h : (r.updateAppendThread k f).Stuck) : r.Stuck := by
  have appends : (r.updateAppendThread k f).appendThreads.map (·.finished) =
      r.appendThreads.map (·.finished) := List.map_modify_of_eq same
  refine ⟨h.1, (idle_congr ?_ appends ?_).mp h.2⟩ <;> rfl

theorem Static.exists_peer (st : r.Static config) (size : 1 < config.size) : ∃ p, p ∈ r.peers := by
  by_contra none
  have only : ∀ p ∈ config.keys, p = r.id := by
    intro p hp
    by_contra other
    exact none ⟨p, (st.peers p).mpr ⟨AList.mem_keys.mpr hp, other⟩⟩
  have same := List.eq_replicate_of_mem only
  have le : config.keys.length ≤ 1 := List.nodup_replicate.mp (same ▸ config.keys_nodup)
  exact absurd size (Nat.not_lt.mpr le)

/-- A candidate stays one unless the reply decides its election. -/
theorem voteReply_candidate (r : Replica) (saved : Int) (reply : RequestVoteRet) (now : Int) :
    (r.voteReply saved reply now).state.role = .candidate ↔ r.state.role = .candidate ∧
      ¬ (saved < reply.term ∨ (Wins saved reply ∧
        (r.state.clusterConfig.size : Int) < (r.state.votesReceived + 1) * 2)) := by
  by_cases role : r.state.role = .candidate
  · rw [and_iff_right role]
    by_cases later : saved < reply.term
    · have down : r.voteReply saved reply now =
          { r with state := r.state.becomeFollower reply.term now } := by
        rw [voteReply, if_neg (not_not_intro role), if_pos later]
      rw [down]
      exact iff_of_false (fun h => RaftRole.noConfusion h) fun h => h (Or.inl later)
    · rcases r.voteReply_cases saved reply now with
        ⟨e, lost⟩ | ⟨_, later', _⟩ | ⟨_, wins, ⟨few, e⟩ | ⟨enough, s, hs, e⟩⟩
      · rw [e]
        exact iff_of_true role fun h => (h.resolve_left later).elim fun wins _ => lost role wins
      · exact absurd later' later
      · rw [e]
        exact iff_of_true role fun h => (h.resolve_left later).2.not_ge few
      · rw [e, hs]
        exact iff_of_false (fun h => RaftRole.noConfusion h) fun h => h (Or.inr ⟨wins, enough⟩)
  · have same : r.voteReply saved reply now = r := if_pos role
    rw [same]
    exact iff_of_false role fun h => role h.1

theorem appendReply_candidate (r : Replica) (id saved nextIndex : Int) (n : Nat)
    (reply : AppendEntriesRet) (now : Int) :
    (r.appendReply id saved nextIndex n reply now).state.role = .candidate ↔
      r.state.role = .candidate ∧ ¬ saved < reply.term := by
  rcases r.appendReply_cases id saved nextIndex n reply now with ⟨later, e⟩ | ⟨earlier, quiet⟩
  · rw [e]
    exact iff_of_false (fun h => RaftRole.noConfusion h) fun h => h.2 later
  · rw [quiet.role, and_iff_left (Int.not_lt.mpr earlier)]

/-- What a reply does leaves the threads alone, but for the one that returns. -/
theorem voteReply_idle (r : Replica) (k : Nat) (saved : Int) (reply : RequestVoteRet) (now : Int) :
    ((r.voteReply saved reply now).updateVoteThread k fun t =>
      { t with finished := true, received := some reply }).Idle ↔ (r.finishVote k).Idle := by
  have same : (r.voteReply saved reply now).voteThreads = r.voteThreads ∧
      (r.voteReply saved reply now).appendThreads = r.appendThreads ∧
      (r.voteReply saved reply now).handlers = r.handlers := by
    rcases r.voteReply_cases saved reply now with
      ⟨e, _⟩ | ⟨_, _, e⟩ | ⟨_, _, ⟨_, e⟩ | ⟨_, _, _, e⟩⟩ <;> rw [e] <;> exact ⟨rfl, rfl, rfl⟩
  refine idle_congr ?_ (congrArg _ same.2.1) (congrArg _ same.2.2)
  rw [updateVoteThread, finishVote, updateVoteThread]
  exact same.1 ▸ List.map_modify_congr fun _ => rfl

theorem appendReply_idle (r : Replica) (k : Nat) (id saved nextIndex : Int) (n : Nat)
    (reply : AppendEntriesRet) (now : Int) :
    ((r.appendReply id saved nextIndex n reply now).updateAppendThread k fun t =>
      { t with finished := true }).Idle ↔ (r.finishAppend k).Idle := by
  obtain ⟨_, _, _, e, _⟩ := r.appendReply_eq id saved nextIndex n reply now
  rw [e]
  rfl

/-! Where a candidate that waits for nothing has been one already. -/

theorem electionTick_stuck (peer : ∃ p, p ∈ r.peers) (now timeout : Int)
    (h : (r.electionTick now timeout).Stuck) : r.Stuck := by
  unfold electionTick at h
  split at h
  · obtain ⟨p, hp⟩ := peer
    have sends : { peer := p, savedCurrentTerm := r.state.currentTerm + 1 } ∈
        (r.startElection now).voteThreads :=
      List.mem_append_right _ (List.mem_map_of_mem (AList.mem_keys.mp hp))
    exact absurd (h.2.1 _ sends) Bool.false_ne_true
  · exact h

theorem requestVote_stuck (args : RequestVoteParams) (now : Int)
    (h : (r.requestVote args now).1.Stuck) : r.Stuck := by
  obtain ⟨_, _, _, _, _, eq⟩ := r.requestVote_eq args now
  refine h.congr (fun role => ?_) (by rw [eq]) (by rw [eq]) (by rw [eq])
  revert role
  simp only [requestVote, observeTerm]
  split_ifs
  · exact fun role => RaftRole.noConfusion role
  · exact fun role => role
  · exact fun role => RaftRole.noConfusion role
  · exact fun role => role
  · exact fun role => role

theorem Served.stuck {args : AppendEntriesParams} {now : Int} {ret : AppendEntriesRet}
    (sv : Served r args now r' ret) (h : r'.Stuck) : r.Stuck := by
  have met (alive : r.state.role ≠ .dead) (role : (r.meetLeader args now).role = .candidate) :
      r.state.role = .candidate := by
    rcases meetLeader_cases alive args now with ⟨_, same, _⟩ | ⟨_, follower, _⟩
    · rw [← same, role]
    · exact RaftRole.noConfusion (follower.symm.trans role)
  cases sv with
  | dead resetEvent _ => exact h.congr (fun role => role) rfl rfl rfl
  | refused alive _ => exact h.congr (met alive) rfl rfl rfl
  | accepted x alive _ _ merged =>
      obtain ⟨_, logs, ps, ms, _, rfl⟩ := merged
      obtain ⟨_, _, _, _, eq⟩ := followCommit_eq { r with
        state := { r.meetLeader args now with logs := logs }
        promises := ps, hist := ms ++ r.hist } args.leaderCommit
      rw [eq] at h
      exact h.congr (met alive) rfl rfl rfl

theorem raftImpl_stuck (st : r.Static config) (h : r.raftImpl.Stuck) : r.Stuck := by
  have kept := r.keeps_raftImpl
  have threads : ∃ ts, r.raftImpl.appendThreads = r.appendThreads ++ ts := by
    unfold raftImpl
    split
    · exact ⟨[], (List.append_nil _).symm⟩
    · exact ⟨[], (List.append_nil _).symm⟩
    · rw [leaderAppend_client r _ st.raftIn]
      exact ⟨[], (List.append_nil _).symm⟩
    · next saved u rest here => exact absurd here (st.notUpdating _ _ _)
    · next saved rest here => exact absurd here (st.notRelocking _ _)
    · exact ⟨_, rfl⟩
    · exact ⟨[], (List.append_nil _).symm⟩
  obtain ⟨role, votes, appends, _⟩ := h
  obtain ⟨ts, threads⟩ := threads
  rw [threads] at appends
  rw [kept.voteThreads] at votes
  rw [kept.role] at role
  exact ⟨role, votes, fun t ht => appends t (List.mem_append_left _ ht), by rw [st.handlers]; rfl⟩

end Replica

namespace Cluster
variable {config : IntMap ServerInfo} {c c' : Cluster} {a : Action}

/-- No RPC is under way, and no reply. -/
def Quiescent (c : Cluster) : Prop := ∀ r ∈ c.servers, (c.node r).Idle

instance (c : Cluster) : Decidable c.Quiescent :=
  inferInstanceAs (Decidable (∀ r ∈ c.servers, (c.node r).Idle))

def AllCandidates (c : Cluster) : Prop := ∀ r ∈ c.servers, (c.node r).state.role = .candidate

instance (c : Cluster) : Decidable c.AllCandidates :=
  inferInstanceAs (Decidable (∀ r ∈ c.servers, (c.node r).state.role = .candidate))

/-- When no RPC is under way, there is a replica that is leader, or a follower whose timer
can still start an election, so that not all are candidates. -/
def GoesOn (c : Cluster) : Prop :=
  c.Quiescent → ¬ c.AllCandidates ∧ ∃ r ∈ c.servers, (c.node r).state.role = .leader ∨
    ((c.node r).state.role = .follower ∧ ∃ now timeout c',
      c.step (.electionTick r now timeout) = some c' ∧ (c'.node r).state.role = .candidate)

/-- While all replicas are candidates, the RPC that is the last one under way does not fail,
and has an outcome: a vote that completes a majority, or a later term. -/
def LastReplyDecides (c : Cluster) : Action → Prop
  | .voteReturn r k reply _ => c.AllCandidates →
      (c.set r ((c.node r).finishVote k)).Quiescent → ∀ t ∈ (c.node r).voteThreads[k]?,
        t.savedCurrentTerm < reply.term ∨ (Replica.Wins t.savedCurrentTerm reply ∧
          ((c.node r).state.clusterConfig.size : Int) < ((c.node r).state.votesReceived + 1) * 2)
  | .voteFail r k => c.AllCandidates → ¬ (c.set r ((c.node r).finishVote k)).Quiescent
  | .appendReturn r k reply _ => c.AllCandidates →
      (c.set r ((c.node r).finishAppend k)).Quiescent → ∀ t ∈ (c.node r).appendThreads[k]?,
        t.savedCurrentTerm < reply.term
  | .appendFail r k => c.AllCandidates → ¬ (c.set r ((c.node r).finishAppend k)).Quiescent
  | _ => True

instance (c : Cluster) (a : Action) : Decidable (c.LastReplyDecides a) :=
  match a with
  | .voteReturn _ _ _ _ => inferInstanceAs (Decidable (_ → _ → ∀ _, _ → _))
  | .voteFail _ _ | .appendFail _ _ => inferInstanceAs (Decidable (_ → ¬ _))
  | .appendReturn _ _ _ _ => inferInstanceAs (Decidable (_ → _ → ∀ _, _ → _))
  | .electionTick _ _ _ | .voteSend _ _ | .voteDeliver _ _ _ | .raftImpl _ | .appendSend _ _ _
  | .appendDeliver _ _ _ | .appendResume _ _ | .executer _ _ | .clientGet _ _ | .clientPut _ _ _
  | .addServer _ _ | .removeServer _ _ | .callStep _ _ _ => inferInstanceAs (Decidable True)

/-- Every replica is a candidate that waits for nothing. -/
def DeadEnd (c : Cluster) : Prop := ∀ r ∈ c.servers, (c.node r).Stuck

theorem deadEnd_iff : c.DeadEnd ↔ c.AllCandidates ∧ c.Quiescent := forall₂_and

/-- A follower's timer starts an election when the time has come. -/
theorem electionTick_fires {r : Int} (member : r ∈ c.servers)
    (role : (c.node r).state.role = .follower) : ∃ now timeout c',
      c.step (.electionTick r now timeout) = some c' ∧ (c'.node r).state.role = .candidate := by
  refine ⟨(c.node r).state.electionResetEvent + 1, 0, _, if_pos member, ?_⟩
  rw [set_node, Function.update_self, Replica.electionTick, if_pos ⟨role, by omega⟩]
  rfl

theorem goesOn_iff (alive : ∀ r, (c.node r).state.role ≠ .dead) : c.GoesOn ↔ ¬ c.DeadEnd := by
  rw [deadEnd_iff]
  constructor
  · exact fun on deadEnd => (on deadEnd.2).1 deadEnd.1
  · intro notDead quiescent
    have other : ¬ c.AllCandidates := fun all => notDead ⟨all, quiescent⟩
    refine ⟨other, ?_⟩
    simp only [AllCandidates, not_forall] at other
    obtain ⟨r, member, role⟩ := other
    refine ⟨r, member, ?_⟩
    cases e : (c.node r).state.role with
    | follower => exact Or.inr ⟨rfl, electionTick_fires member e⟩
    | candidate => exact absurd e role
    | leader => exact Or.inl rfl
    | dead => exact absurd e (alive r)

theorem node_alive {servers : List Int} {config : Int → IntMap ServerInfo}
    {h : List (Cluster × Action)} (run : Run step (launch servers config) h c) (q : Int) :
    (c.node q).state.role ≠ .dead := by
  obtain ⟨_, heard⟩ := node_heard run q
  refine heard.always (I := fun r => r.state.role ≠ .dead) ?_ fun _ _ _ => Replica.hear_alive
  rw [(Replica.initialise_fresh q (config q)).role]
  decide

theorem DeadEnd.of_set {r : Int} {x : Replica} (h : (c.set r x).DeadEnd)
    (back : x.Stuck → (c.node r).Stuck) : c.DeadEnd := by
  intro q member
  have stuck := h q member
  rw [set_node] at stuck
  by_cases here : q = r
  · subst here
    rw [Function.update_self] at stuck
    exact back stuck
  · rwa [Function.update_of_ne here] at stuck

/-- The end of a thread leads into a dead end when nothing else is under way, all replicas
are candidates, and its outcome leaves the role alone. -/
theorem set_deadEnd_iff {r : Int} {x y : Replica} (decides : Prop) (member : r ∈ c.servers)
    (idle : x.Idle ↔ y.Idle) (role : x.state.role = .candidate ↔
      (c.node r).state.role = .candidate ∧ ¬ decides) :
    (c.set r x).DeadEnd ↔ c.AllCandidates ∧ (c.set r y).Quiescent ∧ ¬ decides := by
  have quiescent : (c.set r x).Quiescent ↔ (c.set r y).Quiescent := by
    refine forall₂_congr fun q _ => ?_
    rw [set_node, set_node]
    by_cases here : q = r
    · subst here
      rw [Function.update_self, Function.update_self, idle]
    · rw [Function.update_of_ne here, Function.update_of_ne here]
  have candidates : (c.set r x).AllCandidates ↔ c.AllCandidates ∧ ¬ decides := by
    have split (q : Int) (hq : q ∈ c.servers) (all : q = r → ¬ decides) :
        ((c.set r x).node q).state.role = .candidate ↔ (c.node q).state.role = .candidate := by
      rw [set_node]
      by_cases here : q = r
      · subst here
        rw [Function.update_self, role, and_iff_left (all rfl)]
      · rw [Function.update_of_ne here]
    constructor
    · intro all
      have self := all r member
      rw [set_node, Function.update_self] at self
      have open_ := (role.mp self).2
      exact ⟨fun q hq => (split q hq fun _ => open_).mp (all q hq), open_⟩
    · exact fun ⟨all, open_⟩ q hq => (split q hq fun _ => open_).mpr (all q hq)
  rw [deadEnd_iff, quiescent, candidates]
  tauto

/-- The steps into a dead end. -/
theorem step_deadEnd_iff (hs : c.step a = some c') (st : c.Static config) (size : 1 < config.size)
    (fixed : a.isMembership = false) (free : ¬ c.DeadEnd) :
    c'.DeadEnd ↔ ¬ c.LastReplyDecides a := by
  have frame (back : c'.DeadEnd → c.DeadEnd) : c'.DeadEnd ↔ ¬ True :=
    iff_of_false (fun deadEnd => free (back deadEnd)) (not_not_intro True.intro)
  obtain ⟨member, tr⟩ := Transition.of_step hs
  cases tr with
  | electionTick r now timeout =>
      have peer := (st r).exists_peer size
      exact frame fun h => h.of_set (Replica.electionTick_stuck peer now timeout)
  | voteSend r k t _ _ _ _ =>
      exact frame fun h => h.of_set (Replica.stuck_updateVoteThread fun _ => rfl)
  | voteDeliver r k now t args _ _ _ =>
      refine frame fun h => DeadEnd.of_set (DeadEnd.of_set h ?_)
        (Replica.requestVote_stuck args now)
      exact Replica.stuck_updateVoteThread fun _ => rfl
  | voteReturn r k reply now t ht _ _ =>
      have server : r ∈ c.servers := member
      rw [set_deadEnd_iff _ server ((c.node r).voteReply_idle k t.savedCurrentTerm reply now)
        ((c.node r).voteReply_candidate t.savedCurrentTerm reply now)]
      simp only [LastReplyDecides, ht, Option.mem_def, Option.some.injEq, forall_eq',
        Classical.not_imp]
  | voteFail r k t ht _ =>
      have ends := @set_deadEnd_iff c r ((c.node r).finishVote k) _ False member Iff.rfl
        (and_iff_left not_false).symm
      rw [and_iff_left not_false] at ends
      exact ends.trans (by simp only [LastReplyDecides, Classical.not_imp, not_not])
  | raftImpl r => exact frame fun h => h.of_set (Replica.raftImpl_stuck (st r))
  | appendSend r k junk t _ _ _ _ =>
      refine frame fun h => h.of_set fun stuck => ?_
      have before := Replica.stuck_updateAppendThread ?_ stuck
      · exact before.congr (fun role => role) rfl rfl rfl
      · exact fun _ => rfl
  | appendDeliver r k now t args ht ha _ =>
      have client := (st r).args t (List.mem_of_getElem? ht) args ha
      obtain ⟨x, ret, eq, served⟩ := (c.node t.peer).appendEntries_client now client
      rw [eq] at frame ⊢
      refine frame fun h => DeadEnd.of_set (DeadEnd.of_set h ?_) served.stuck
      exact Replica.stuck_updateAppendThread fun _ => rfl
  | appendUpdate p j h u hj _ =>
      rw [(st p).handlers] at hj
      cases hj
  | appendResume p j h hj _ =>
      rw [(st p).handlers] at hj
      cases hj
  | appendReturn r k reply now t args ht _ _ _ =>
      have server : r ∈ c.servers := member
      rw [set_deadEnd_iff _ server ((c.node r).appendReply_idle k t.peer t.savedCurrentTerm
        t.nextIndex args.entries.length reply now) ((c.node r).appendReply_candidate t.peer
          t.savedCurrentTerm t.nextIndex args.entries.length reply now)]
      simp only [LastReplyDecides, ht, Option.mem_def, Option.some.injEq, forall_eq',
        Classical.not_imp]
  | appendFail r k t ht _ =>
      have ends := @set_deadEnd_iff c r ((c.node r).finishAppend k) _ False member Iff.rfl
        (and_iff_left not_false).symm
      rw [and_iff_left not_false] at ends
      exact ends.trans (by simp only [LastReplyDecides, Classical.not_imp, not_not])
  | executer r ok =>
      obtain ⟨_, _, _, _, _, _, eq⟩ := (c.node r).executer_eq ok
      rw [eq] at frame ⊢
      exact frame fun h => h.of_set fun stuck => stuck.congr (fun role => role) rfl rfl rfl
  | clientGet r key =>
      exact frame fun h => h.of_set fun stuck => stuck.congr (fun role => role) rfl rfl rfl
  | clientPut r key value =>
      exact frame fun h => h.of_set fun stuck => stuck.congr (fun role => role) rfl rfl rfl
  | addServer r args => cases fixed
  | removeServer r serverId => cases fixed
  | callStep r j now call p hc hp =>
      have client := (st r).calls call (List.mem_of_getElem? hc)
      obtain ⟨_, _, _, _, _, eq⟩ := Replica.advance_eq client hp
      rw [eq] at frame ⊢
      exact frame fun h => h.of_set fun stuck => stuck.congr (fun role => role) rfl rfl rfl

/-- A cluster goes on in every state of a run just when no RPC that is the last one under
way leaves all replicas candidates. -/
theorem goesOn_iff_lastReplyDecides {h : List (Cluster × Action)} (f : FixedRun config h c)
    (size : 3 ≤ config.size) :
    (c.GoesOn ∧ ∀ p ∈ h, p.1.GoesOn) ↔ Meets LastReplyDecides h := by
  obtain ⟨run, membership⟩ := f
  induction run with
  | start =>
      obtain ⟨r, hr⟩ := List.exists_mem_of_length_pos
        (show 0 < config.keys.length from Nat.lt_of_lt_of_le (by decide) size)
      have role : ((fixed config).node r).state.role = .follower :=
        (Replica.initialise_fresh r config).role
      have free : ¬ (fixed config).DeadEnd := fun deadEnd =>
        RaftRole.noConfusion (role.symm.trans (deadEnd r hr).1)
      have on : (fixed config).GoesOn := (goesOn_iff (node_alive .start)).mpr free
      exact iff_of_true ⟨on, fun _ p => absurd p List.not_mem_nil⟩
        fun _ p => absurd p List.not_mem_nil
  | @next h c c' a run hs ih =>
      have before : FixedRun config h c := ⟨run, membership.tail⟩
      have leads := step_deadEnd_iff hs before.static (Nat.lt_of_lt_of_le (by decide) size)
        membership.head
      rw [Meets.cons, ← ih membership.tail, List.forall_mem_cons, goesOn_iff (node_alive run),
        goesOn_iff (node_alive (.next run hs))]
      constructor
      · exact fun ⟨free', free, past⟩ => ⟨not_not.mp (mt (leads free).mpr free'), free, past⟩
      · exact fun ⟨decides, free, past⟩ => ⟨fun deadEnd => (leads free).mp deadEnd decides, free,
          past⟩

theorem goesOn_iff_lastReplyDecides_plainElection :
    ((outcome step (fixed threeServers) plainElection).2.GoesOn ∧
      ∀ p ∈ (outcome step (fixed threeServers) plainElection).1, p.1.GoesOn) ↔
    Meets LastReplyDecides (outcome step (fixed threeServers) plainElection).1 :=
  goesOn_iff_lastReplyDecides (fixedRun_outcome _ _ (by decide +kernel)) (by decide)

/-- All three servers time out in term 1, and each refuses the others. -/
def splitVote : List Action :=
  [.electionTick 1 10 5, .electionTick 2 10 5, .electionTick 3 10 5] ++
  [1, 2, 3].flatMap fun r => [0, 1].flatMap fun k =>
    [.voteSend r k, .voteDeliver r k 11, .voteReturn r k ⟨1, false⟩ 12]

theorem not_goesOn : ¬ ∀ (config : IntMap ServerInfo) (h : List (Cluster × Action)) (c : Cluster),
    FixedRun config h c → 3 ≤ config.size → c.GoesOn := by
  intro always
  have on := always _ _ _ (fixedRun_outcome threeServers splitVote (by decide +kernel)) (by decide)
  have quiescent : (outcome step (fixed threeServers) splitVote).2.Quiescent := by decide +kernel
  have candidates : (outcome step (fixed threeServers) splitVote).2.AllCandidates := by
    decide +kernel
  exact (on quiescent).1 candidates

end Cluster
end OhMyDb
