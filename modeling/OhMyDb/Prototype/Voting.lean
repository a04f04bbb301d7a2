import OhMyDb.Prototype.Simulation

/-!
The election side of the simulation. Two conditions say what the goroutines rely on
without checking it: that a reply of a later term is later than the module's own term,
and that the vote that completes an election finds the module in the term it was for.
-/

namespace OhMyDb
namespace Prototype
open Execution
open LeaderLog (Step Steps UpToDate Evolves Elsewhere Held)
open Network
variable {α : Type}

namespace Network

/-- A module that takes over the term of a reply has not got as far itself. -/
def RepliesLater (s : Network α) : Action α → Prop
  | .voteReturn i e k _ => ∀ p ∈ (s.node i).voteCall? e k, ∀ reply ∈ p.2.reply,
      (s.node i).state = .candidate → p.1.savedCurrentTerm < reply.term →
      (s.node i).currentTerm < reply.term
  | .heartbeatReturn i k _ => ∀ hb ∈ (s.node i).heartbeats[k]?, ∀ reply ∈ hb.reply,
      hb.savedCurrentTerm < reply.term → (s.node i).currentTerm < reply.term
  | _ => True

/-- An election is won in the term it has been started for. -/
def WinsInItsTerm (s : Network α) : Action α → Prop
  | .voteReturn i e k _ => ∀ p ∈ (s.node i).voteCall? e k, ∀ reply ∈ p.2.reply,
      (s.node i).state = .candidate → reply = ⟨p.1.savedCurrentTerm, true⟩ →
      (s.node i).peerIds.length + 1 < (p.1.votesReceived + 1) * 2 →
      (s.node i).currentTerm = p.1.savedCurrentTerm
  | _ => True

instance (s : Network α) (a : Action α) : Decidable (s.RepliesLater a) :=
  match a with
  | .voteReturn _ _ _ _ | .heartbeatReturn _ _ _ => inferInstanceAs (Decidable (∀ _, _ → _))
  | .timerStep _ _ _ _ | .voteSend _ _ _ | .voteServe _ _ _ _ | .voteFail _ _ _
  | .leaderSendHeartbeats _ | .heartbeatSend _ _ | .heartbeatServe _ _ _ | .heartbeatFail _ _
  | .submit _ _ | .stop _ => inferInstanceAs (Decidable True)

instance (s : Network α) (a : Action α) : Decidable (s.WinsInItsTerm a) :=
  match a with
  | .voteReturn _ _ _ _ => inferInstanceAs (Decidable (∀ _, _ → _))
  | .timerStep _ _ _ _ | .voteSend _ _ _ | .voteServe _ _ _ _ | .voteFail _ _ _
  | .leaderSendHeartbeats _ | .heartbeatSend _ _ | .heartbeatServe _ _ _
  | .heartbeatReturn _ _ _ | .heartbeatFail _ _ | .submit _ _ | .stop _ =>
      inferInstanceAs (Decidable True)

end Network

section Answers
variable {servers : List Int} {b b' : AbstractState α} {i : Int} {cm : ConsensusModule α}
  {s : Network α}

/-- A sequence of abstract steps of node `i` leads to a state that `cm` stands for, and
all acknowledgements given on the way are true there. -/
def Answers (servers : List Int) (b : AbstractState α) (i : Int) (cm : ConsensusModule α) : Prop :=
  ∃ b', Steps (quorums servers) .pastLeader b b' ∧ Elsewhere i b b' ∧
    (∀ a ∈ b'.acks, a ∈ b.acks ∨ Held b' a) ∧ Stands b' i cm

theorem Answers.same (st : Stands b i cm) : Answers servers b i cm :=
  ⟨b, .refl, .refl i b, fun _ => Or.inl, st⟩

theorem Answers.step (reached : Reached servers b)
    (h : Step (quorums servers) .pastLeader b b') (el : Elsewhere i b b')
    (st : Stands b' i cm) : Answers servers b i cm :=
  ⟨b', .single h, el, fun _ ha => h.held reached.sound.matching ha, st⟩

/-- Steps that give no acknowledgement may go first. -/
theorem Answers.after (h : Steps (quorums servers) .pastLeader b b') (el : Elsewhere i b b')
    (acks : b'.acks = b.acks) (next : Answers servers b' i cm) : Answers servers b i cm := by
  obtain ⟨b'', steps, el', held, st⟩ := next
  exact ⟨b'', h.trans steps, el.trans el', fun a ha => (held a ha).imp_left (acks ▸ ·), st⟩

/-- What the abstract state cannot see may change afterwards. -/
theorem Answers.map {cm' : ConsensusModule α} (h : Answers servers b i cm)
    (next : ∀ b, Stands b i cm → Stands b i cm') : Answers servers b i cm' := by
  obtain ⟨b', steps, el, held, st⟩ := h
  exact ⟨b', steps, el, held, next b' st⟩

/-- The answer to a step of the network. -/
def Follows (servers : List Int) (b : AbstractState α) (s : Network α) : Prop :=
  ∃ b', Steps (quorums servers) .pastLeader b b' ∧
    (∀ a ∈ b'.acks, a ∈ b.acks ∨ Held b' a) ∧ Simulates s b'

theorem Simulates.follows (sim : Simulates s b) (reached : Reached servers b)
    (h : Answers servers b i cm) : Follows servers b (s.set i cm) := by
  obtain ⟨b', steps, el, held, st⟩ := h
  exact ⟨b', steps, held, sim.set (reached.evolves steps) el st⟩

theorem Follows.same (sim : Simulates s b) : Follows servers b s :=
  ⟨b, .refl, fun _ => Or.inl, sim⟩

end Answers

section Elections
variable {servers : List Int} {b b' : AbstractState α} {i : Int} {cm : ConsensusModule α}
  {s : Network α} {n : Nat}

/-- No vote has been given for a term that is not reached yet. -/
theorem Stands.vote_term (st : Stands b i cm) (reached : Reached servers b)
    {w : LeaderLog.Vote Int α} (hw : w ∈ b.votes) (voter : w.voter = i) :
    w.term ≤ cm.currentTerm := by
  have le := reached.sound.voting.vote_voter w hw
  rwa [voter, st.mirrors.term] at le

/-- A module that takes over a term, its own included, is a follower in it. It is not
bound to a vote any more: in its own term that is as good as bound where a leader has
taken its place. -/
theorem Stands.becomeFollower (st : Stands b i cm) (reached : Reached servers b) {term : Int}
    (le : cm.currentTerm ≤ term) (now : Int)
    (freed : ∀ w ∈ b.votes, w.voter = i → w.term = term → w.candidate = i ∧ Freed b i w.term) :
    Step (quorums servers) .pastLeader b (b.observe i term) ∧
      Stands (b.observe i term) i (cm.becomeFollower term now) := by
  have step : Step (quorums servers) .pastLeader b (b.observe i term) :=
    .observe b i term (st.mirrors.term ▸ le)
  have e := reached.evolves (.single step)
  refine ⟨step, ⟨?_, ?_, st.mirrors.log⟩, ⟨?_, ?_, fun h => (by cases h), st.votes.named⟩,
    st.requested.evolve e, st.sends.evolve e, st.led⟩
  · simp [LeaderLog.State.observe, ConsensusModule.becomeFollower]
  · simp [LeaderLog.State.observe, ConsensusModule.becomeFollower, NodeState.abstract]
  · exact fun q t h => (st.votes.voted q t h).imp_right fun free =>
      ⟨free.1, free.2.mono e subset_rfl⟩
  · intro w hw voter same
    obtain ⟨own, f⟩ := freed w hw voter same
    exact Or.inr ⟨own, f.mono e subset_rfl⟩

/-- Nothing binds a module in a later term. -/
theorem Stands.later (st : Stands b i cm) (reached : Reached servers b) {term : Int}
    (lt : cm.currentTerm < term) (now : Int) :
    Step (quorums servers) .pastLeader b (b.observe i term) ∧
      Stands (b.observe i term) i (cm.becomeFollower term now) := by
  refine st.becomeFollower reached lt.le now fun w hw voter same => ?_
  have := st.vote_term reached hw voter
  omega

theorem Stands.observeTerm (st : Stands b i cm) (reached : Reached servers b) (term now : Int) :
    ∃ b', Steps (quorums servers) .pastLeader b b' ∧ Elsewhere i b b' ∧ b'.acks = b.acks ∧
      Stands b' i (cm.observeTerm term now) := by
  unfold ConsensusModule.observeTerm
  split
  · next later =>
    obtain ⟨step, st'⟩ := st.later reached later now
    exact ⟨_, .single step, LeaderLog.elsewhere_observe b i _, rfl, st'⟩
  · exact ⟨b, .refl, .refl i b, rfl, st⟩

theorem Stands.startElection (st : Stands b i cm) (reached : Reached servers b) (id : cm.id = i)
    (named : i ≠ -1) (running : cm.state = .candidate ∨ cm.state = .follower) (now : Int) :
    Answers servers b i (cm.startElection now) := by
  have m := st.mirrors
  have role : b.role i ≠ .leader := by
    rw [m.role]
    rcases running with h | h <;> simp [h, NodeState.abstract]
  have step : Step (quorums servers) .pastLeader b (b.startElection i) :=
    .startElection b i role
  have e := reached.evolves (.single step)
  refine .step reached step (LeaderLog.elsewhere_startElection b i) ?_
  constructor
  case mirrors =>
    refine ⟨?_, ?_, m.log⟩
    · simp [LeaderLog.State.startElection, ConsensusModule.startElection, m.term]
    · simp [LeaderLog.State.startElection, ConsensusModule.startElection, NodeState.abstract]
  case votes =>
    constructor
    case voted =>
      intro q t h
      rcases List.mem_cons.mp h with h | h
      · obtain ⟨rfl, rfl⟩ := Event.voted.inj h
        refine Or.inl ⟨_, Set.mem_insert _ _, rfl, id.symm, ?_⟩
        rw [m.term]
      · rcases st.votes.voted q t h with ⟨w, hw, facts⟩ | ⟨other, f⟩
        · exact Or.inl ⟨w, Set.mem_insert_of_mem _ hw, facts⟩
        · exact Or.inr ⟨other, f.mono e (Set.subset_insert _ _)⟩
    case votedFor =>
      rintro w (rfl | hw) voter same
      · exact Or.inl id
      · have le := st.vote_term reached hw voter
        have new : w.term = cm.currentTerm + 1 := same
        omega
    case candidate => exact fun _ => id
    case named =>
      rintro w (rfl | hw) voter
      · exact named
      · exact st.votes.named w hw voter
  case requested =>
    intro el hel call hc args ha
    rcases List.mem_append.mp hel with hel | hel
    · exact st.requested.evolve e el hel call hc args ha
    · obtain rfl := List.mem_singleton.mp hel
      obtain ⟨_, _, rfl⟩ := List.mem_map.mp hc
      cases ha
  case sends => exact st.sends.evolve e
  case led => exact fun t h => st.led t ((List.mem_cons.mp h).resolve_left (by simp))

theorem Stands.voteSend (st : Stands b i cm) (reached : Reached servers b) {e k : Nat}
    {el : Election} {call : VoteCall} (found : cm.voteCall? e k = some (el, call))
    (own : .voted i el.savedCurrentTerm ∈ cm.hist) :
    Answers servers b i (cm.updateVoteCall e k fun call =>
      { call with args := some (cm.requestVoteArgs el.savedCurrentTerm) }) := by
  obtain ⟨he, hc⟩ := ConsensusModule.voteCall?_eq_some.mp found
  have m := st.mirrors
  have saved : el.savedCurrentTerm ≤ cm.currentTerm := by
    rcases st.votes.voted i _ own with ⟨w, hw, voter, _, term⟩ | ⟨other, _⟩
    · exact term ▸ st.vote_term reached hw voter
    · exact absurd rfl other
  have step : Step (quorums servers) .pastLeader b (b.request i el.savedCurrentTerm) :=
    .request b i _ (m.term ▸ saved)
  have ev := reached.evolves (.single step)
  refine .step reached step { Elsewhere.refl i b with } ⟨{ m with },
    (st.votes.evolve ev rfl).congr rfl rfl (fun h => h) fun _ _ h => h, ?_,
    st.sends.evolve ev, st.led⟩
  intro el' hel call' hc' args ha
  rcases List.mem_or_eq_of_mem_modify hel with hel | ⟨el', hk, rfl⟩
  · exact st.requested.evolve ev el' hel call' hc' args ha
  · obtain rfl := Option.some.inj (hk.symm.trans he)
    rcases List.mem_or_eq_of_mem_modify hc' with hc' | ⟨call', hk', rfl⟩
    · exact st.requested.evolve ev el' (List.mem_of_getElem? hk) call' hc' args ha
    · obtain rfl := Option.some.inj ha
      refine ⟨⟨i, el'.savedCurrentTerm, b.log i⟩, Set.mem_insert _ _, rfl, rfl, ?_, ?_⟩
      · rw [m.log, abstractLog_length]
        rfl
      · rw [m.log, lastTerm_abstract]
        rfl

/-- The two comparisons of logs are the same. -/
theorem upToDate_abstract {args : RequestVoteArgs} {q : LeaderLog.Log α}
    {log : List (LogEntry α)} (lastLogIndex : args.lastLogIndex = (q.length : Int) - 1)
    (lastLogTerm : args.lastLogTerm = LeaderLog.lastTerm q) (h : upToDate args log) :
    UpToDate q (abstractLog log) := by
  rw [UpToDate, lastTerm_abstract, ← lastLogTerm]
  refine h.imp (fun h => h) fun h => ⟨h.1, ?_⟩
  have le := h.2
  rw [lastLogIndex, Prototype.lastLogIndex] at le
  rw [abstractLog_length]
  omega

/-- A vote that somebody else asks for. -/
theorem Stands.grant (st : Stands b i cm) (reached : Reached servers b) {args : RequestVoteArgs}
    {q : LeaderLog.Request Int α} (hq : q ∈ b.requests) (candidate : q.candidate = args.candidateId)
    (requestTerm : q.term = args.term)
    (lastLogIndex : args.lastLogIndex = (q.log.length : Int) - 1)
    (lastLogTerm : args.lastLogTerm = LeaderLog.lastTerm q.log) (other : args.candidateId ≠ i)
    (named : args.candidateId ≠ -1) (own : i ≠ -1) (grants : cm.grantsVote args) (now : Int) :
    Answers servers b i { cm with
      votedFor := args.candidateId
      electionResetEvent := now
      hist := .voted args.candidateId cm.currentTerm :: cm.hist } := by
  have m := st.mirrors
  obtain ⟨term, free, upToDate⟩ := grants
  have state : cm.state ≠ .candidate := by
    intro h
    have self := st.votes.candidate h
    rcases free with free | free
    · exact own (self.symm.trans free)
    · exact other (free.symm.trans self)
  by_cases freed : Freed b i cm.currentTerm
  · -- the vote comes after the election has been decided
    refine .same ⟨{ m with }, ⟨?_, ?_, fun h => absurd h state, st.votes.named⟩, st.requested,
      st.sends, fun t h => st.led t ((List.mem_cons.mp h).resolve_left (by simp))⟩
    · intro p t h
      rcases List.mem_cons.mp h with h | h
      · obtain ⟨rfl, rfl⟩ := Event.voted.inj h
        exact Or.inr ⟨other, freed⟩
      · exact st.votes.voted p t h
    · intro w hw voter same
      obtain ⟨u, hu, uvoter, ucandidate, uterm⟩ := freed.own
      have one := reached.sound.voting.vote_unique w hw u hu (voter.trans uvoter.symm)
        (same.trans uterm.symm)
      exact Or.inr ⟨one.trans ucandidate, same ▸ freed⟩
  · have bound : ∀ w ∈ b.votes, w.voter = i → w.term = q.term → w.candidate = q.candidate := by
      intro w hw voter same
      have current : w.term = cm.currentTerm := same.trans (requestTerm.trans term.symm)
      rcases st.votes.votedFor w hw voter current with votedFor | ⟨_, f⟩
      · rcases free with free | free
        · exact absurd (votedFor.symm.trans free) (st.votes.named w hw voter)
        · exact votedFor.symm.trans (free.trans candidate.symm)
      · exact absurd (current ▸ f) freed
    have step : Step (quorums servers) .pastLeader b (b.grant i q) := by
      refine .grant b i q hq (m.term.trans (term.trans requestTerm.symm)) ?_ bound
      rw [m.log]
      exact upToDate_abstract lastLogIndex lastLogTerm upToDate
    have e := reached.evolves (.single step)
    refine .step reached step (LeaderLog.elsewhere_grant b i q) ⟨{ m with },
      ⟨?_, ?_, fun h => absurd h state, ?_⟩, st.requested.evolve e, st.sends.evolve e,
      fun t h => st.led t ((List.mem_cons.mp h).resolve_left (by simp))⟩
    · intro p t h
      rcases List.mem_cons.mp h with h | h
      · obtain ⟨rfl, rfl⟩ := Event.voted.inj h
        exact Or.inl ⟨_, Set.mem_insert _ _, rfl, candidate, requestTerm.trans term.symm⟩
      · rcases st.votes.voted p t h with ⟨w, hw, facts⟩ | ⟨ne, f⟩
        · exact Or.inl ⟨w, Set.mem_insert_of_mem _ hw, facts⟩
        · exact Or.inr ⟨ne, f.mono e (Set.subset_insert _ _)⟩
    · rintro w (rfl | hw) voter same
      · exact Or.inl candidate.symm
      · have current : w.term = q.term := same.trans (term.trans requestTerm.symm)
        exact Or.inl ((bound w hw voter current).trans candidate).symm
    · rintro w (rfl | hw) voter
      · exact candidate.trans_ne named
      · exact st.votes.named w hw voter

theorem Stands.requestVote (st : Stands b i cm) (reached : Reached servers b)
    {args : RequestVoteArgs} {q : LeaderLog.Request Int α} (hq : q ∈ b.requests)
    (candidate : q.candidate = args.candidateId) (requestTerm : q.term = args.term)
    (lastLogIndex : args.lastLogIndex = (q.log.length : Int) - 1)
    (lastLogTerm : args.lastLogTerm = LeaderLog.lastTerm q.log) (other : args.candidateId ≠ i)
    (named : args.candidateId ≠ -1) (own : i ≠ -1) (now : Int) :
    Answers servers b i (cm.requestVote args now).1 := by
  unfold ConsensusModule.requestVote
  split
  · exact .same st
  · obtain ⟨b', steps, el, acks, st'⟩ := st.observeTerm reached args.term now
    refine .after steps el acks ?_
    dsimp only
    split
    · next grants =>
      exact st'.grant (reached.trans steps) ((reached.evolves steps).requests hq) candidate
        requestTerm lastLogIndex lastLogTerm other named own grants now
    · exact .same st'

/-- A module with the votes of a majority is the first to be elected for its term. -/
theorem Simulates.elect (sim : Simulates s b) (reached : Reached servers b) {A : Finset Int}
    (candidate : (s.node i).state = .candidate)
    (quorum : Quorum.IsMajority servers.toFinset A)
    (voted : ∀ v ∈ A, .voted i (s.node i).currentTerm ∈ (s.node v).hist) :
    ∀ v ∈ A, ∃ w ∈ b.votes, w.voter = v ∧ w.candidate = i ∧ w.term = b.term i := by
  have m := (sim i).mirrors
  have voting := reached.sound.voting
  have role : b.role i = .candidate := by rw [m.role, candidate]; rfl
  -- a leader of the term has the vote of one of the voters
  have unled : b.leader (s.node i).currentTerm = none := by
    cases h : b.leader (s.node i).currentTerm with
    | none => rfl
    | some l =>
        obtain ⟨hq, hv⟩ := voting.leader_quorum _ l h
        obtain ⟨v, hA, hB⟩ := (quorums servers).meet _ _ quorum hq
        obtain ⟨x, hx, xv, xl, xt, _⟩ := hv v hB
        rcases (sim v).votes.voted i _ (voted v hA) with ⟨w, hw, wv, wi, wt⟩ | ⟨_, freed⟩
        · have same := voting.vote_unique w hw x hx (wv.trans xv.symm) (wt.trans xt.symm)
          have own : l = i := by rw [← xl, ← same, wi]
          exact absurd (m.term ▸ own ▸ h) (voting.candidate_unled i role)
        · obtain ⟨w, hw, wv, wc, wt⟩ := freed.own
          obtain ⟨l', leader, ne⟩ := freed.leader
          have same := voting.vote_unique w hw x hx (wv.trans xv.symm) (wt.trans xt.symm)
          have own : l = v := by rw [← xl, ← same, wc]
          exact absurd (Option.some.inj (leader.symm.trans h) |>.trans own) ne
  intro v hv
  rcases (sim v).votes.voted i _ (voted v hv) with ⟨w, hw, wv, wi, wt⟩ | ⟨_, freed⟩
  · exact ⟨w, hw, wv, wi, wt.trans m.term.symm⟩
  · obtain ⟨l, leader, _⟩ := freed.leader
    rw [unled] at leader
    cases leader

theorem Stands.updateVoteCall (st : Stands b i cm) (e k : Nat) {g : VoteCall → VoteCall}
    (same : ∀ call, (g call).args = call.args) : Stands b i (cm.updateVoteCall e k g) :=
  ⟨{ st.mirrors with }, st.votes.congr rfl rfl (fun h => h) fun _ _ h => h,
    st.requested.modify same, st.sends, st.led⟩

theorem Requested.count {els : List Election} {e : Nat} (rq : Requested b i els) :
    Requested b i (els.modify e fun el => { el with votesReceived := el.votesReceived + 1 }) := by
  intro el hel call hc args ha
  rcases List.mem_or_eq_of_mem_modify hel with hel | ⟨el, he, rfl⟩
  · exact rq el hel call hc args ha
  · exact rq el (List.mem_of_getElem? he) call hc args ha

theorem Simulates.countVote (sim : Simulates s b) (reached : Reached s.servers b)
    (p : Placed n s) (tally : Tally s) (server : i ∈ s.servers) {e k : Nat} {el : Election}
    {call : VoteCall} (found : (s.node i).voteCall? e k = some (el, call))
    (answered : call.reply = some ⟨el.savedCurrentTerm, true⟩) (waiting : call.returned = false)
    (candidate : (s.node i).state = .candidate)
    (wins : (s.node i).peerIds.length + 1 < (el.votesReceived + 1) * 2 →
      (s.node i).currentTerm = el.savedCurrentTerm) :
    Answers s.servers b i ((s.node i).countVote e el) := by
  have st := sim i
  have m := st.mirrors
  unfold ConsensusModule.countVote
  dsimp only
  split
  · next most =>
    obtain ⟨he, hc⟩ := ConsensusModule.voteCall?_eq_some.mp found
    have term := wins most
    have fair := (tally i el (List.mem_of_getElem? he)).count hc answered waiting
    obtain ⟨A, sub, count, voted⟩ := fair.voters p server
    have quorum : Quorum.IsMajority s.servers.toFinset A := by
      refine ⟨sub, ?_⟩
      have size := p.size server
      rw [List.toFinset_card_of_nodup p.nodup, ← size]
      change (((s.node i).peerIds.length : Int)) + 1 < _ at most
      dsimp only at count
      omega
    rw [← term] at voted
    have votes := sim.elect reached candidate quorum voted
    have step : Step (quorums s.servers) .pastLeader b (b.elect i A) :=
      .elect b i A (by rw [m.role, candidate]; rfl) quorum votes
    have ev := reached.evolves (.single step)
    refine .step reached step (LeaderLog.elsewhere_elect b i A) ⟨⟨m.term, ?_, m.log⟩, ?_,
      st.requested.count.evolve ev, st.sends.evolve ev, fun t h => ?_⟩
    · simp [LeaderLog.State.elect, ConsensusModule.startLeader, NodeState.abstract]
    · exact (st.votes.evolve ev rfl).congr rfl rfl (fun h => (by cases h)) fun q t h =>
        (List.mem_cons.mp h).resolve_left (by simp)
    · rcases List.mem_cons.mp h with h | h
      · obtain rfl := Event.startLeader.inj h
        change Function.update b.leader (b.term i) (some i) (s.node i).currentTerm = some i
        rw [m.term, Function.update_self]
      · exact ev.leader t i (st.led t h)
  · exact .same ⟨{ m with }, st.votes.congr rfl rfl (fun h => h) fun _ _ h => h,
      st.requested.count, st.sends, st.led⟩

theorem Simulates.voteServe (sim : Simulates s b) (reached : Reached s.servers b)
    (p : Placed n s) (tally : Tally s) (server : i ∈ s.servers) {e k : Nat} {now : Int}
    {el : Election} {call : VoteCall} {args : RequestVoteArgs}
    (found : (s.node i).voteCall? e k = some (el, call)) (sent : call.args = some args)
    (peer : call.peerId ∈ s.servers) :
    Follows s.servers b ((s.set call.peerId ((s.node call.peerId).requestVote args now).1).set i
      (((s.set call.peerId ((s.node call.peerId).requestVote args now).1).node
        i).updateVoteCall e k fun call' =>
          { call' with reply := some ((s.node call.peerId).requestVote args now).2 })) := by
  obtain ⟨he, hc⟩ := ConsensusModule.voteCall?_eq_some.mp found
  have mem := List.mem_of_getElem? hc
  have fair := tally i el (List.mem_of_getElem? he)
  obtain ⟨q, hq, candidate, term, lastLogIndex, lastLogTerm⟩ :=
    (sim i).requested el (List.mem_of_getElem? he) call mem args sent
  obtain ⟨asks, _⟩ := fair.sent call mem args sent
  have other : call.peerId ≠ i := by
    have := fair.peers ▸ List.mem_map_of_mem mem
    exact of_decide_eq_true (List.mem_filter.mp this).2
  have pos := p.nonneg server
  have pos' := p.nonneg peer
  obtain ⟨b', steps, held, sim'⟩ := sim.follows reached ((sim call.peerId).requestVote reached hq
    (candidate.trans asks.symm) term lastLogIndex lastLogTerm (asks.trans_ne other.symm)
    (by omega) (by omega) now)
  exact ⟨b', steps, held, sim'.setSame ((sim' i).updateVoteCall e k fun _ => rfl)⟩

theorem Simulates.voteReturn (sim : Simulates s b) (reached : Reached s.servers b)
    (p : Placed n s) (tally : Tally s) (server : i ∈ s.servers) {e k : Nat} {now : Int}
    {el : Election} {call : VoteCall} {reply : RequestVoteReply}
    (found : (s.node i).voteCall? e k = some (el, call)) (answered : call.reply = some reply)
    (waiting : call.returned = false) (later : s.RepliesLater (.voteReturn i e k now))
    (wins : s.WinsInItsTerm (.voteReturn i e k now)) :
    Follows s.servers b (s.set i (((s.node i).voteReply e el reply now).updateVoteCall e k
      fun call => { call with returned := true })) := by
  have st := sim i
  refine sim.follows reached (Answers.map ?_ fun _ st => st.updateVoteCall e k fun _ => rfl)
  rcases (s.node i).voteReply_cases e el reply now with
    eq | ⟨candidate, lt, eq⟩ | ⟨candidate, rfl, eq⟩
  · rw [eq]
    exact .same st
  · rw [eq]
    have lt' := later (el, call) found reply answered candidate lt
    obtain ⟨step, st'⟩ := st.later reached lt' now
    exact .step reached step (LeaderLog.elsewhere_observe b i _) st'
  · rw [eq]
    exact sim.countVote reached p tally server found answered waiting candidate
      (wins (el, call) found _ answered candidate rfl)

end Elections
end Prototype
end OhMyDb
