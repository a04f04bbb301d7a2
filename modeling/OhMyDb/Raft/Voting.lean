import OhMyDb.Raft.Simulation

/-!
The election side of the simulation: starting an election, asking for a vote,
serving the request and taking the reply are steps of the abstract protocol, with
a step-down before them where a later term is met.
-/

namespace OhMyDb
open Execution
open LeaderLog (Step Steps Evolves Elsewhere Held UpToDate)

section Answers
variable {ℓ : Level} {config : IntMap ServerInfo} {b b' : AbstractState} {n : Int} {x : Replica}
  {c : Cluster}

/-- A sequence of abstract steps of node `n` leads to a state that `x` stands for,
and all acknowledgements given on the way are true there. -/
def Answers (ℓ : Level) (config : IntMap ServerInfo) (b : AbstractState) (n : Int)
    (x : Replica) : Prop :=
  ∃ b', Steps (quorums config) ℓ.discipline b b' ∧ Elsewhere n b b' ∧
    (∀ a ∈ b'.acks, a ∈ b.acks ∨ Held b' a) ∧ Stands ℓ b' n x

theorem Answers.same (st : Stands ℓ b n x) : Answers ℓ config b n x :=
  ⟨b, .refl, .refl n b, fun _ => Or.inl, st⟩

theorem Answers.step (reached : ℓ.Reached config b)
    (h : Step (quorums config) ℓ.discipline b b') (el : Elsewhere n b b')
    (st : Stands ℓ b' n x) : Answers ℓ config b n x :=
  ⟨b', .single h, el, fun _ ha => h.held reached.matching ha, st⟩

/-- A step that gives no acknowledgement may go first. -/
theorem Answers.after (h : Step (quorums config) ℓ.discipline b b') (el : Elsewhere n b b')
    (acks : b'.acks = b.acks) (next : Answers ℓ config b' n x) : Answers ℓ config b n x := by
  obtain ⟨b'', steps, el', held, st⟩ := next
  exact ⟨b'', .head h steps, el.trans el', fun a ha => (held a ha).imp_left (acks ▸ ·), st⟩

/-- The answer to a step of the whole cluster. -/
def Follows (ℓ : Level) (config : IntMap ServerInfo) (b : AbstractState) (c : Cluster) : Prop :=
  ∃ b', Steps (quorums config) ℓ.discipline b b' ∧ (∀ a ∈ b'.acks, a ∈ b.acks ∨ Held b' a) ∧
    Simulates ℓ c b'

theorem Simulates.follows (sim : Simulates ℓ c b) (reached : ℓ.Reached config b)
    (h : Answers ℓ config b n x) : Follows ℓ config b (c.set n x) := by
  obtain ⟨b', steps, el, held, st⟩ := h
  exact ⟨b', steps, held, sim.set (reached.evolves steps) el st⟩

theorem Follows.map {c c' : Cluster} (h : Follows ℓ config b c)
    (next : ∀ b, Simulates ℓ c b → Simulates ℓ c' b) : Follows ℓ config b c' := by
  obtain ⟨b', steps, held, sim⟩ := h
  exact ⟨b', steps, held, next b' sim⟩

end Answers

section Elections
variable {ℓ : Level} {config : IntMap ServerInfo} {b : AbstractState} {r : Int} {x : Replica}
  {c : Cluster} {s : RaftState}

/-- A replica that takes over a term stands for a follower in it. -/
theorem Stands.observe (st : Stands ℓ b r x) (reached : ℓ.Reached config b)
    (le : x.state.currentTerm ≤ s.currentTerm) (role : s.role = .follower)
    (logs : s.logs = x.state.logs) (commitIndex : s.commitIndex = x.state.commitIndex) :
    Step (quorums config) ℓ.discipline b (b.observe r s.currentTerm) ∧
    Stands ℓ (b.observe r s.currentTerm) r { x with state := s } := by
  have step : Step (quorums config) ℓ.discipline b (b.observe r s.currentTerm) :=
    .observe b r s.currentTerm (st.mirrors.term ▸ le)
  have e := step.evolves reached.voting reached.matching
  refine ⟨step, ?_, st.voted, st.requested.evolve e, st.sends.evolve e,
    .of_role (by rw [role]; decide), st.recalls.evolve e⟩
  constructor
  case term => simp [LeaderLog.State.observe]
  case role => simp [LeaderLog.State.observe, role, RaftRole.abstract]
  case alive => rw [role]; decide
  case log => exact logs ▸ st.mirrors.log
  case commit => exact commitIndex ▸ st.mirrors.commit

theorem Stands.startElection (st : Stands ℓ b r x) (reached : ℓ.Reached config b)
    (id : x.id = r) (follower : x.state.role = .follower) (now : Int) :
    Answers ℓ config b r (x.startElection now) := by
  have role : b.role r ≠ .leader := by rw [st.mirrors.role, follower]; simp [RaftRole.abstract]
  have step : Step (quorums config) ℓ.discipline b (b.startElection r) :=
    .startElection b r role
  have e := step.evolves reached.voting reached.matching
  refine .step reached step (LeaderLog.elsewhere_startElection b r) ?_
  have m := st.mirrors
  constructor
  case mirrors =>
    constructor
    case term => simp [LeaderLog.State.startElection, m.term]; rfl
    case role => simp [LeaderLog.State.startElection]; rfl
    case alive => exact fun h => by cases h
    case log => exact m.log
    case commit => exact m.commit
  case voted =>
    intro q t
    change .voted q t ∈ .voted x.id (x.state.currentTerm + 1) :: x.hist ↔ _
    rw [List.mem_cons, st.voted q t, id, ← m.term]
    simp only [LeaderLog.State.startElection, Set.mem_insert_iff, exists_eq_or_imp,
      Event.voted.injEq, true_and, @eq_comm _ q, @eq_comm _ t]
  case requested =>
    intro t ht args ha
    rcases List.mem_append.mp ht with ht | ht
    · exact st.requested.evolve e t ht args ha
    · obtain ⟨p, _, rfl⟩ := List.mem_map.mp ht
      cases ha
  case sends => exact st.sends.evolve e
  case leads => exact .of_role fun h => by cases h
  case recalls => exact (st.recalls.evolve e).vote _ _

theorem Stands.electionTick (st : Stands ℓ b r x) (reached : ℓ.Reached config b)
    (id : x.id = r) (now timeout : Int) : Answers ℓ config b r (x.electionTick now timeout) := by
  unfold Replica.electionTick
  split
  · next elapsed => exact st.startElection reached id elapsed.1 now
  · exact .same st

theorem Stands.voteSend (st : Stands ℓ b r x) (reached : ℓ.Reached config b)
    (counts : x.Counts) {k : Nat} {t : VoteThread} (ht : x.voteThreads[k]? = some t) :
    Answers ℓ config b r (x.updateVoteThread k fun t =>
      { t with args := some (x.voteParams t.savedCurrentTerm) }) := by
  have saved := counts.saved_le t (List.mem_of_getElem? ht)
  have step : Step (quorums config) ℓ.discipline b (b.request r t.savedCurrentTerm) :=
    .request b r _ (st.mirrors.term ▸ saved)
  have e := step.evolves reached.voting reached.matching
  refine .step reached step { Elsewhere.refl r b with } ⟨{ st.mirrors with }, st.voted, ?_,
    st.sends.evolve e, st.leads.evolve e, st.recalls.evolve e⟩
  intro u hu args ha
  rcases List.mem_or_eq_of_mem_modify hu with hu | ⟨u, hk, rfl⟩
  · exact st.requested.evolve e u hu args ha
  · obtain rfl := Option.some.inj (hk.symm.trans ht)
    obtain rfl := Option.some.inj ha
    refine ⟨⟨r, u.savedCurrentTerm, b.log r⟩, Set.mem_insert _ _, rfl, rfl, ?_, ?_⟩
    · rw [st.mirrors.log, abstractLog_length]
      rfl
    · rw [st.mirrors.log, LogVector.lastTerm_abstract]
      rfl

/-- The two comparisons of logs are the same. -/
theorem upToDate_abstract {args : RequestVoteParams} {q : AbstractLog} {logs : LogVector}
    (lastLogIndex : args.lastLogIndex = (q.length : Int) - 1)
    (lastLogTerm : args.lastLogTerm = LeaderLog.lastTerm q)
    (h : Replica.upToDate args (logs.size - 1) logs.lastTerm) :
    UpToDate q (abstractLog logs.items) := by
  rw [UpToDate, LogVector.lastTerm_abstract, ← lastLogTerm]
  refine h.imp (fun h => h) fun h => ⟨h.1, ?_⟩
  have le := h.2
  simp only [LogVector.size, lastLogIndex] at le
  rw [abstractLog_length]
  omega

/-- The vote of a replica that has observed the candidate's term. -/
theorem Stands.grant (st : Stands ℓ b r x) (reached : ℓ.Reached config b)
    {args : RequestVoteParams} {q : LeaderLog.Request Int Command} (hq : q ∈ b.requests)
    (candidate : q.candidate = args.candidateId) (requestTerm : q.term = args.term)
    (lastLogIndex : args.lastLogIndex = (q.log.length : Int) - 1)
    (lastLogTerm : args.lastLogTerm = LeaderLog.lastTerm q.log)
    (term : args.term = x.state.currentTerm)
    (upToDate : Replica.upToDate args (x.state.logs.size - 1) x.state.logs.lastTerm)
    (single : ∀ v ∈ x.votes, v.2 = args.term → v.1 = args.candidateId) (now : Int) :
    Answers ℓ config b r { x with
      state := { x.state with
        votedFor := args.candidateId, electionResetEvent := now }.persist
      hist := .voted args.candidateId x.state.currentTerm :: x.hist } := by
  have m := st.mirrors
  have step : Step (quorums config) ℓ.discipline b (b.grant r q) := by
    refine .grant b r q hq (m.term.trans (term.symm.trans requestTerm.symm)) ?_ ?_
    · rw [m.log]
      exact upToDate_abstract lastLogIndex lastLogTerm upToDate
    · intro w hw voter same
      have mem := (st.voted w.candidate w.term).mpr ⟨w, hw, voter, rfl, rfl⟩
      exact (single _ (Replica.mem_votes.mpr mem) (same.trans requestTerm)).trans candidate.symm
  have e := step.evolves reached.voting reached.matching
  refine .step reached step (LeaderLog.elsewhere_grant b r q) ⟨{ m with }, ?_,
    st.requested.evolve e, st.sends.evolve e, (st.leads.evolve e).congr rfl rfl le_rfl rfl rfl,
    (st.recalls.evolve e).vote _ _⟩
  intro p t
  rw [List.mem_cons, st.voted p t, ← term, ← requestTerm, ← candidate]
  simp only [LeaderLog.State.grant, Set.mem_insert_iff, exists_eq_or_imp, Event.voted.injEq,
    true_and, @eq_comm _ p, @eq_comm _ t]

theorem Stands.requestVote (st : Stands ℓ b r x) (reached : ℓ.Reached config b)
    {args : RequestVoteParams} {q : LeaderLog.Request Int Command} (hq : q ∈ b.requests)
    (candidate : q.candidate = args.candidateId) (requestTerm : q.term = args.term)
    (lastLogIndex : args.lastLogIndex = (q.log.length : Int) - 1)
    (lastLogTerm : args.lastLogTerm = LeaderLog.lastTerm q.log) (now : Int)
    (single : args.candidateId ∈ x.peers → x.grantsVote args now →
      ∀ v ∈ x.votes, v.2 = args.term → v.1 = args.candidateId) :
    Answers ℓ config b r (x.requestVote args now).1 := by
  unfold Replica.requestVote
  split
  · exact .same st
  · next member =>
    -- first the later term, then the vote
    have observed : ∀ {y : Replica}, (∀ b', ℓ.Reached config b' → b.requests ⊆ b'.requests →
        Stands ℓ b' r { x with state := x.observeTerm args.term now } →
        Answers ℓ config b' r y) → Answers ℓ config b r y := by
      intro y next
      unfold Replica.observeTerm at next
      split at next
      · next later =>
        obtain ⟨step, st'⟩ := st.observe (s := x.state.becomeFollower args.term now) reached
          later.le rfl rfl rfl
        exact .after step (LeaderLog.elsewhere_observe b r _) rfl
          (next _ (reached.tail step) subset_rfl st')
      · exact next b reached subset_rfl st
    refine observed fun b' reached' requests st' => ?_
    have logs : (x.observeTerm args.term now).logs = x.state.logs := by
      unfold Replica.observeTerm
      split <;> rfl
    simp only
    split
    · next grants =>
      exact st'.grant reached' (requests hq) candidate requestTerm lastLogIndex lastLogTerm
        grants.1 (by simpa only [logs] using grants.2.2) (single (not_not.mp member) grants) now
    · exact .same ⟨{ st'.mirrors with }, st'.voted, st'.requested, st'.sends,
        st'.leads.congr rfl rfl le_rfl rfl rfl, st'.recalls⟩

theorem Stands.closeVote (st : Stands ℓ b r x) (k : Nat) (reply : RequestVoteRet) :
    Stands ℓ b r (x.updateVoteThread k (VoteThread.close reply)) :=
  { st with requested := st.requested.modify fun _ => rfl }

theorem Answers.closeVote (h : Answers ℓ config b r x) (k : Nat) (reply : RequestVoteRet) :
    Answers ℓ config b r (x.updateVoteThread k (VoteThread.close reply)) := by
  obtain ⟨b', steps, el, held, st⟩ := h
  exact ⟨b', steps, el, held, st.closeVote k reply⟩

/-- Winning an election. -/
theorem Stands.elect (st : Stands ℓ b r x) (reached : ℓ.Reached config b) {A : Finset Int}
    (role : x.state.role = .candidate) (quorum : Quorum.IsMajority config.keys.toFinset A)
    (votes : ∀ v ∈ A, ∃ w ∈ b.votes, w.voter = v ∧ w.candidate = r ∧
      w.term = x.state.currentTerm)
    (term : s.currentTerm = x.state.currentTerm) (logs : s.logs = x.state.logs)
    (commitIndex : s.commitIndex = x.state.commitIndex) (leader : s.role = .leader)
    (nextIndex : ∀ p, ∀ v ∈ s.nextIndex.lookup p, v = s.logs.size)
    (matchIndex : ∀ p ∈ x.peers, s.matchIndex.lookup p = some (-1)) :
    Answers ℓ config b r { x with state := s, hist := .becameLeader s :: x.hist } := by
  have m := st.mirrors
  have step : Step (quorums config) ℓ.discipline b (b.elect r A) := by
    refine .elect b r A (by rw [m.role, role]; rfl) quorum fun v hv => ?_
    rw [m.term]
    exact votes v hv
  have e := step.evolves reached.voting reached.matching
  have rc := st.recalls.evolve e
  refine .step reached step (LeaderLog.elsewhere_elect b r A) ⟨?_, ?_, st.requested.evolve e,
    st.sends.evolve e, ⟨?_, ?_⟩, ⟨?_, ?_, ?_⟩⟩
  · constructor
    case term => exact m.term.trans term.symm
    case role => simp [LeaderLog.State.elect, leader, RaftRole.abstract]
    case alive => rw [leader]; decide
    case log => exact logs ▸ m.log
    case commit => exact commitIndex ▸ m.commit
  · intro q t
    rw [List.mem_cons, or_iff_right (by simp)]
    exact st.voted q t
  · exact fun _ _ p v hv => (nextIndex p v hv).le
  · exact fun _ _ p hp => ⟨-1, matchIndex p hp, fun pos => absurd pos (by decide)⟩
  · intro s' h
    rcases List.mem_cons.mp h with h | h
    · obtain rfl := Event.becameLeader.inj h
      simp [LeaderLog.State.elect, term, m.term, m.log, logs]
    · exact rc.elected s' h
  · exact fun hl s' h => rc.committed hl s' ((List.mem_cons.mp h).resolve_left (by simp))
  · exact fun hl i op h => rc.pushedOut hl i op ((List.mem_cons.mp h).resolve_left (by simp))

theorem Simulates.pushVoteReply (sim : Simulates ℓ c b) {k : Nat} {ret : RequestVoteRet} :
    Simulates ℓ (c.pushVoteReply r k ret) b :=
  sim.setSame { sim r with requested := (sim r).requested.modify fun _ => rfl }

theorem Simulates.voteDeliver (sim : Simulates ℓ c b) (reached : ℓ.Reached config b)
    (tally : c.Tally) {k : Nat} {t : VoteThread} {args : RequestVoteParams} {now : Int}
    (ht : (c.node r).voteThreads[k]? = some t) (ha : t.args = some args)
    (single : c.SingleVote (.voteDeliver r k now)) :
    Follows ℓ config b ((c.set t.peer ((c.node t.peer).requestVote args now).1).pushVoteReply r k
      ((c.node t.peer).requestVote args now).2) := by
  have mem := List.mem_of_getElem? ht
  obtain ⟨q, hq, candidate, term, lastLogIndex, lastLogTerm⟩ := (sim r).requested t mem args ha
  have asks := ((tally.counts r).args t mem args ha).1
  rw [tally.id r] at asks
  refine Follows.map (sim.follows reached ((sim t.peer).requestVote reached hq
    (candidate.trans asks.symm) term lastLogIndex lastLogTerm now ?_))
    fun _ sim' => sim'.pushVoteReply
  exact single t ht args ha

theorem Simulates.voteReturn (sim : Simulates ℓ c b) (reached : ℓ.Reached config b)
    (static : c.Static config) (servers : c.servers = config.keys) (tally : c.Tally)
    (ballots : c.Ballots) {k : Nat} {t : VoteThread} {reply : RequestVoteRet} {now : Int}
    (ht : (c.node r).voteThreads[k]? = some t) (waiting : t.finished = false)
    (mem : reply ∈ t.replies) (thisTerm : c.VotesOfThisTerm (.voteReturn r k reply now))
    (noStepBack : c.NoStepBack (.voteReturn r k reply now)) :
    Follows ℓ config b (c.set r (((c.node r).voteReply t.savedCurrentTerm reply
      now).updateVoteThread k (VoteThread.close reply))) := by
  have st := sim r
  refine sim.follows reached (.closeVote ?_ k reply)
  rcases (c.node r).voteReply_cases t.savedCurrentTerm reply now with
    ⟨e, _⟩ | ⟨role, later, e⟩ | ⟨role, wins, ⟨_, e⟩ | ⟨enough, s, hs, e⟩⟩ <;> rw [e]
  · exact .same st
  · obtain ⟨step, st'⟩ := st.observe (s := (c.node r).state.becomeFollower reply.term now)
      reached (noStepBack t ht role later) rfl rfl rfl
    exact .step reached step (LeaderLog.elsewhere_observe b r _) st'
  · exact .same ⟨{ st.mirrors with }, st.voted, st.requested, st.sends,
      st.leads.congr rfl rfl le_rfl rfl rfl, st.recalls⟩
  · have m : Cluster.Majority c r s _ := tally.election ht waiting mem role wins enough thisTerm
      (by rw [hs]; rfl) (by rw [hs]; rfl)
    have members : ∀ p ∈ config, p ∈ s.clusterConfig := by
      rw [hs]
      exact (static r).members
    refine st.elect reached role (m.isMajority ballots servers members) ?_ (by rw [hs]; rfl)
      (by rw [hs]; rfl) (by rw [hs]; rfl) (by rw [hs]; rfl) ?_ ?_
    · intro v hv
      have voted := m.voted v (List.mem_toFinset.mp hv)
      rw [show s.currentTerm = (c.node r).state.currentTerm by rw [hs]; rfl] at voted
      exact ((sim v).voted _ _).mp voted
    · intro p v hv
      rw [hs] at hv ⊢
      simp only [RaftState.becomeLeader, RaftState.persist, IntMap.lookup_foldl_insert,
        AList.lookup_empty, Option.mem_def, Option.ite_none_right_eq_some] at hv
      exact (Option.some.inj hv.2).symm
    · intro p hp
      rw [hs]
      simp only [RaftState.becomeLeader, RaftState.persist, IntMap.lookup_foldl_insert]
      rw [if_pos (AList.mem_keys.mp hp)]

end Elections
end OhMyDb
