import OhMyDb.Raft.Terms
import OhMyDb.Lib.Modify

/-!
The vote threads of one replica and its counter. `VotesReceived` is one counter
for all elections of a replica, whose threads outlive the election that started
them. The counter of a candidate is one more than the number of threads that have
brought home a vote for its present term, and these threads ask distinct peers.
-/

namespace OhMyDb

/-- The thread has brought home a vote for term `term`. -/
def VoteThread.counted (term : Int) (t : VoteThread) : Bool :=
  decide (t.savedCurrentTerm = term ∧ t.received = some ⟨term, true⟩)

/-- The thread has got its reply. -/
def VoteThread.close (reply : RequestVoteRet) (t : VoteThread) : VoteThread :=
  { t with finished := true, received := some reply }

namespace Replica
variable {r r' : Replica}

/-! A replica is never its own peer. -/

structure Apart (r : Replica) : Prop where
  peers : r.id ∉ r.peers
  raftThread : ∀ saved rest, r.raftThread ≠ .updatingPeers saved (.addPeer r.id) rest
  handlers : ∀ h ∈ r.handlers, h.update ≠ some (.addPeer r.id)

theorem Apart.quiet (a : Apart r) (q : Quiet r r') : Apart r' where
  peers := by rw [q.id, q.peers]; exact a.peers
  raftThread := by rw [q.id, q.raftThread]; exact a.raftThread
  handlers := by rw [q.id, q.handlers]; exact a.handlers

theorem Apart.updatePeers (a : Apart r) {u : PeerUpdate} (h : u ≠ .addPeer r.id) :
    r.id ∉ (r.updatePeers u).peers := by
  cases u with
  | addPeer p =>
      have e : r.id ≠ p := fun e => h (by rw [e])
      simpa [Replica.updatePeers, addPeer, AList.mem_insert, e] using a.peers
  | removePeer p =>
      simp only [Replica.updatePeers, removePeer, AList.mem_erase, not_and]
      exact fun _ => a.peers

theorem applyConfig_update {op : Command} {u : PeerUpdate}
    (h : (r.applyConfig op).2 = some u) : u ≠ .addPeer r.id := by
  cases op with
  | addServer info =>
      simp only [applyConfig, Option.ite_none_right_eq_some, Option.some.injEq] at h
      obtain ⟨ne, rfl⟩ := h
      simpa using Ne.symm ne
  | removeServer serverId =>
      simp only [applyConfig, Option.ite_none_right_eq_some, Option.some.injEq] at h
      obtain ⟨_, rfl⟩ := h
      simp
  | get _ => cases h
  | put _ _ => cases h

theorem leaderAppendLoop_update {ops : List RaftOp} {u : PeerUpdate} {rest : List RaftOp}
    (h : (leaderAppendLoop ops r).2 = some (u, rest)) : u ≠ .addPeer r.id := by
  induction ops generalizing r with
  | nil => cases h
  | cons op ops ih =>
      have q := (quiet_pushLog r ⟨r.state.currentTerm, op⟩).trans
        (quiet_applyConfig _ op.command)
      unfold leaderAppendLoop at h
      split at h
      · next x v he =>
        cases h
        have ne := applyConfig_update (congrArg (·.2) he)
        exact ne
      · next x he =>
        have id : x.id = r.id := by simpa only [he] using q.id
        exact id ▸ ih h

theorem appendLoop_update {es : List AppendLogEntry} {u : PeerUpdate} {e : AppendLogEntry}
    {rest : List AppendLogEntry} (h : (appendLoop es r).2 = some (u, e, rest)) :
    u ≠ .addPeer r.id := by
  induction es generalizing r with
  | nil => cases h
  | cons e es ih =>
      have q := (quiet_pushLog r ⟨e.term, e.op⟩).trans (quiet_applyConfig _ e.op.command)
      unfold appendLoop at h
      split at h
      · next x v he =>
        cases h
        have ne := applyConfig_update (congrArg (·.2) he)
        exact ne
      · next x he =>
        have id : x.id = r.id := by simpa only [he] using q.id
        rw [← id, ← (quiet_checkIndex x e).id]
        exact ih h

theorem appendRest_update {args : AppendEntriesParams} {es : List AppendLogEntry}
    {u : PeerUpdate} {e : AppendLogEntry} {rest : List AppendLogEntry}
    (h : (r.appendRest args es).2 = .suspended u e rest) : u ≠ .addPeer r.id := by
  unfold appendRest at h
  split at h
  · next x v e' rest' he =>
    cases h
    exact appendLoop_update (congrArg (·.2) he)
  · cases h

theorem appendEntries_update {args : AppendEntriesParams} {now : Int} {u : PeerUpdate}
    {e : AppendLogEntry} {rest : List AppendLogEntry}
    (h : (r.appendEntries args now).2 = .suspended u e rest) : u ≠ .addPeer r.id := by
  unfold appendEntries at h
  split at h
  · cases h
  · simp only at h
    split at h
    · unfold mergeEntries at h
      split at h
      · have ne := appendRest_update h
        exact ne
      · cases h
    · cases h

theorem Apart.leaderAppend (a : Apart r) (saved : Int) (ops : List RaftOp) :
    Apart (r.leaderAppend saved ops) := by
  have q := quiet_leaderAppendLoop ops r
  unfold Replica.leaderAppend
  split
  · next x u rest he =>
    rw [he] at q
    have ne := leaderAppendLoop_update (congrArg (·.2) he)
    exact { a.quiet q with
      raftThread := by
        intro _ _ h
        injection h with _ hu _
        exact ne (hu.trans (congrArg _ q.id)) }
  · next x he =>
    rw [he] at q
    exact { a.quiet (q.trans (quiet_persistLogs x)) with
      raftThread := by intro _ _ h; cases h }

theorem Apart.raftImpl (a : Apart r) : Apart r.raftImpl := by
  unfold Replica.raftImpl
  cases hp : r.raftThread with
  | isLeader => exact a.leaderAppend _ _
  | relocking saved rest => exact a.leaderAppend _ _
  | updatingPeers saved update rest =>
      have ne : update ≠ .addPeer r.id := by
        rintro rfl
        exact a.raftThread _ _ hp
      have id := (keeps_updatePeers r update).id
      refine ⟨?_, (by intro _ _ h; cases h), ?_⟩
      · change (r.updatePeers update).id ∉ (r.updatePeers update).peers
        rw [id]
        exact a.updatePeers ne
      · cases update <;> exact a.handlers
  | swapped =>
      have stays (saved rest) :
          (if r.state.role = .leader then RaftThread.isLeader else .sleeping) ≠
            .updatingPeers saved (.addPeer r.id) rest := by
        split <;> simp
      exact ⟨a.peers, stays, a.handlers⟩
  | top => exact ⟨a.peers, (by intro _ _ h; cases h), a.handlers⟩
  | spawning saved => exact ⟨a.peers, (by intro _ _ h; cases h), a.handlers⟩
  | sleeping => exact ⟨a.peers, (by intro _ _ h; cases h), a.handlers⟩

/-! The counter. -/

/-- Whom each vote thread asks, and in which term. -/
def ballots (r : Replica) : List (Int × Int) :=
  r.voteThreads.map fun t => (t.peer, t.savedCurrentTerm)

structure Counts (r : Replica) : Prop where
  saved_le : ∀ t ∈ r.voteThreads, t.savedCurrentTerm ≤ r.state.currentTerm
  peer_ne : ∀ t ∈ r.voteThreads, t.peer ≠ r.id
  args : ∀ t ∈ r.voteThreads, ∀ a ∈ t.args, a.candidateId = r.id ∧ a.term = t.savedCurrentTerm
  received : ∀ t ∈ r.voteThreads, ∀ reply ∈ t.received, t.finished = true ∧ reply ∈ t.replies
  distinct : (r.ballots.filter (·.2 = r.state.currentTerm)).Nodup
  tally : r.state.role = .candidate → r.state.votesReceived =
    1 + r.voteThreads.countP (VoteThread.counted r.state.currentTerm)
  self : r.state.role = .candidate → .voted r.id r.state.currentTerm ∈ r.hist

/-- What may happen outside elections: the replica stays a candidate as it is, or
is none, possibly in a later term. -/
theorem Counts.change (n : Counts r) (id : r'.id = r.id)
    (threads : r'.voteThreads = r.voteThreads)
    (le : r.state.currentTerm ≤ r'.state.currentTerm)
    (candidate : r'.state.role = .candidate → r.state.role = .candidate ∧
      r'.state.currentTerm = r.state.currentTerm ∧
      r'.state.votesReceived = r.state.votesReceived)
    (hist : ∀ c t, .voted c t ∈ r.hist → .voted c t ∈ r'.hist) : Counts r' where
  saved_le := by
    rw [threads]
    exact fun t ht => (n.saved_le t ht).trans le
  peer_ne := by rw [threads, id]; exact n.peer_ne
  args := by rw [threads, id]; exact n.args
  received := by rw [threads]; exact n.received
  distinct := by
    rw [ballots, threads]
    rcases le.eq_or_lt with e | lt
    · rw [← e]
      exact n.distinct
    · -- no thread was started in the new term yet
      rw [List.filter_eq_nil_iff.mpr]
      · exact List.nodup_nil
      · intro p hp
        obtain ⟨t, ht, rfl⟩ := List.mem_map.mp hp
        have := n.saved_le t ht
        simp only [decide_eq_true_eq]
        omega
  tally := by
    intro role
    obtain ⟨role, term, votes⟩ := candidate role
    rw [threads, term, votes]
    exact n.tally role
  self := by
    intro role
    obtain ⟨role, term, _⟩ := candidate role
    rw [id, term]
    exact hist _ _ (n.self role)

theorem Counts.keeps (n : Counts r) (k : Keeps r r') : Counts r' :=
  n.change k.id k.voteThreads k.term.ge
    (fun role => ⟨k.role ▸ role, k.term, k.votesReceived⟩) fun _ _ => k.voted.mpr

theorem Counts.startElection (n : Counts r) (a : Apart r) (now : Int) :
    Counts (r.startElection now) where
  saved_le := by
    intro t ht
    change t.savedCurrentTerm ≤ r.state.currentTerm + 1
    rcases List.mem_append.mp ht with ht | ht
    · exact (n.saved_le t ht).trans (by omega)
    · obtain ⟨p, _, rfl⟩ := List.mem_map.mp ht
      exact le_rfl
  peer_ne := by
    intro t ht
    rcases List.mem_append.mp ht with ht | ht
    · exact n.peer_ne t ht
    · obtain ⟨p, hp, rfl⟩ := List.mem_map.mp ht
      rintro rfl
      exact a.peers hp
  args := by
    intro t ht
    rcases List.mem_append.mp ht with ht | ht
    · exact n.args t ht
    · obtain ⟨p, _, rfl⟩ := List.mem_map.mp ht
      rintro _ ⟨⟩
  received := by
    intro t ht
    rcases List.mem_append.mp ht with ht | ht
    · exact n.received t ht
    · obtain ⟨p, _, rfl⟩ := List.mem_map.mp ht
      rintro _ ⟨⟩
  distinct := by
    have old : r.ballots.filter (·.2 = r.state.currentTerm + 1) = [] := by
      rw [List.filter_eq_nil_iff]
      intro p hp
      obtain ⟨t, ht, rfl⟩ := List.mem_map.mp hp
      have := n.saved_le t ht
      simp only [decide_eq_true_eq]
      omega
    have new : (r.startElection now).ballots =
        r.ballots ++ r.peers.keys.map fun id => (id, r.state.currentTerm + 1) := by
      simp [ballots, Replica.startElection]
    change ((r.startElection now).ballots.filter (·.2 = r.state.currentTerm + 1)).Nodup
    rw [new, List.filter_append, old, List.nil_append]
    exact (r.peers.keys_nodup.map fun _ _ h => (Prod.mk.inj h).1).filter _
  tally := by
    intro _
    change (1 : Int) = 1 + ((r.voteThreads ++ r.peers.keys.map fun id =>
      ({ peer := id, savedCurrentTerm := r.state.currentTerm + 1 } : VoteThread)).countP
        (VoteThread.counted (r.state.currentTerm + 1)) : Nat)
    rw [List.countP_eq_zero.mpr]
    · simp
    · intro t ht
      rcases List.mem_append.mp ht with ht | ht
      · have := n.saved_le t ht
        simp only [VoteThread.counted, decide_eq_true_eq, not_and]
        omega
      · obtain ⟨p, _, rfl⟩ := List.mem_map.mp ht
        simp [VoteThread.counted]
  self := fun _ => List.mem_cons_self

/-- One thread changes, but not whom it asks in which term, and not its vote. -/
theorem Counts.updateVoteThread (n : Counts r) {k : Nat} {t : VoteThread}
    {f : VoteThread → VoteThread} (ht : r.voteThreads[k]? = some t)
    (ballot : ∀ t, (f t).peer = t.peer ∧ (f t).savedCurrentTerm = t.savedCurrentTerm)
    (args : ∀ a ∈ (f t).args, a.candidateId = r.id ∧ a.term = t.savedCurrentTerm)
    (received : ∀ reply ∈ (f t).received, (f t).finished = true ∧ reply ∈ (f t).replies)
    (tally : r.state.role = .candidate →
      (f t).counted r.state.currentTerm = t.counted r.state.currentTerm) :
    Counts (r.updateVoteThread k f) := by
  have mem : t ∈ r.voteThreads := List.mem_of_getElem? ht
  have cases {x : VoteThread} (hx : x ∈ r.voteThreads.modify k f) :
      x ∈ r.voteThreads ∨ x = f t := by
    refine (List.mem_or_eq_of_mem_modify hx).imp_right ?_
    rintro ⟨t', ht', rfl⟩
    rw [Option.some.inj (ht'.symm.trans ht)]
  exact {
    saved_le := by
      intro x hx
      rcases cases hx with hx | rfl
      · exact n.saved_le x hx
      · exact (ballot t).2 ▸ n.saved_le t mem
    peer_ne := by
      intro x hx
      rcases cases hx with hx | rfl
      · exact n.peer_ne x hx
      · exact (ballot t).1 ▸ n.peer_ne t mem
    args := by
      intro x hx
      rcases cases hx with hx | rfl
      · exact n.args x hx
      · exact (ballot t).2 ▸ args
    received := by
      intro x hx
      rcases cases hx with hx | rfl
      · exact n.received x hx
      · exact received
    distinct := by
      have same : (r.updateVoteThread k f).ballots = r.ballots :=
        List.map_modify_of_eq fun t => by rw [(ballot t).1, (ballot t).2]
      rw [same]
      exact n.distinct
    tally := by
      intro role
      have same := List.countP_modify_of_eq ht (tally role)
      exact (n.tally role).trans (by rw [← same]; rfl)
    self := n.self }

/-- The distinct replicas whose votes a candidate has counted, itself among them. -/
def voters (r : Replica) : List Int :=
  r.id :: (r.voteThreads.filter (VoteThread.counted r.state.currentTerm)).map (·.peer)

theorem Counts.voters_nodup (n : Counts r) : r.voters.Nodup := by
  refine List.nodup_cons.mpr ⟨?_, ?_⟩
  · intro h
    obtain ⟨t, ht, e⟩ := List.mem_map.mp h
    exact n.peer_ne t (List.mem_filter.mp ht).1 e
  · have sub : ((r.voteThreads.filter (VoteThread.counted r.state.currentTerm)).map
        fun t => (t.peer, t.savedCurrentTerm)).Sublist
          (r.ballots.filter (·.2 = r.state.currentTerm)) := by
      rw [ballots, List.filter_map]
      refine List.Sublist.map _ (List.monotone_filter_right _ ?_)
      intro t ht
      simp only [VoteThread.counted, decide_eq_true_eq] at ht
      simpa using ht.1
    have pairs := n.distinct.sublist sub
    -- all these pairs have the same second component
    rw [List.Nodup, List.pairwise_map] at pairs ⊢
    refine pairs.imp_of_mem ?_
    intro t u ht hu ne e
    have tt := (List.mem_filter.mp ht).2
    have uu := (List.mem_filter.mp hu).2
    simp only [VoteThread.counted, decide_eq_true_eq] at tt uu
    exact ne (by rw [e, tt.1, uu.1])

theorem voters_length (r : Replica) : r.voters.length =
    1 + r.voteThreads.countP (VoteThread.counted r.state.currentTerm) := by
  rw [voters, List.length_cons, List.length_map, List.countP_eq_length_filter, Nat.add_comm]

/-- A vote is counted that does not decide the election yet. -/
def countVote (r : Replica) (k : Nat) (reply : RequestVoteRet) : Replica :=
  { r with state := { r.state with
      votesReceived := r.state.votesReceived + 1 } }.updateVoteThread k (VoteThread.close reply)

theorem Counts.close (n : Counts r) {k : Nat} {t : VoteThread} {reply : RequestVoteRet}
    (ht : r.voteThreads[k]? = some t) (mem : reply ∈ t.replies)
    (tally : r.state.role = .candidate → (VoteThread.close reply t).counted r.state.currentTerm =
      t.counted r.state.currentTerm) :
    Counts (r.updateVoteThread k (VoteThread.close reply)) :=
  n.updateVoteThread ht (fun _ => ⟨rfl, rfl⟩) (n.args t (List.mem_of_getElem? ht))
    (by rintro _ ⟨⟩; exact ⟨rfl, mem⟩) tally

/-- A thread that is still waiting has not been counted. -/
theorem Counts.waiting (n : Counts r) {t : VoteThread} (ht : t ∈ r.voteThreads)
    (waiting : t.finished = false) (term : Int) : t.counted term = false := by
  simp only [VoteThread.counted, decide_eq_false_iff_not, not_and]
  intro _ h
  have := (n.received t ht _ h).1
  rw [waiting] at this
  cases this

theorem Counts.countVote (n : Counts r) {k : Nat} {t : VoteThread} {reply : RequestVoteRet}
    (ht : r.voteThreads[k]? = some t) (mem : reply ∈ t.replies) (waiting : t.finished = false)
    (role : r.state.role = .candidate) (same : r.state.currentTerm = t.savedCurrentTerm)
    (term : reply.term = t.savedCurrentTerm) (granted : reply.voteGranted = true) :
    Counts (r.countVote k reply) := by
  have aside : Counts { r with state := { r.state with role := .follower } } :=
    n.change rfl rfl le_rfl (fun h => nomatch h) fun _ _ h => h
  have closed := aside.close ht mem fun h => nomatch h
  refine ⟨closed.saved_le, closed.peer_ne, closed.args, closed.received, closed.distinct, ?_,
    fun _ => n.self role⟩
  intro _
  have counted : (VoteThread.close reply t).counted r.state.currentTerm = true := by
    have e : reply = ⟨t.savedCurrentTerm, true⟩ := by
      cases reply
      simp only at term granted
      rw [term, granted]
    simp [VoteThread.counted, VoteThread.close, same, e]
  have count := List.countP_modify_succ ht
    (n.waiting (List.mem_of_getElem? ht) waiting r.state.currentTerm) counted
  have tally := n.tally role
  change r.state.votesReceived + 1 = 1 + (((r.voteThreads.modify k _).countP
    (VoteThread.counted r.state.currentTerm) : Nat) : Int)
  rw [count]
  push_cast
  omega

/-- The reply is a vote for the election its thread belongs to. -/
def Wins (saved : Int) (reply : RequestVoteRet) : Prop :=
  reply.term = saved ∧ reply.voteGranted = true

instance (saved : Int) (reply : RequestVoteRet) : Decidable (Wins saved reply) :=
  inferInstanceAs (Decidable (_ ∧ _))

/-- What the reply part of a vote thread does. -/
theorem voteReply_cases (r : Replica) (saved : Int) (reply : RequestVoteRet) (now : Int) :
    (r.voteReply saved reply now = r ∧
      (r.state.role = .candidate → ¬ Wins saved reply)) ∨
    (r.state.role = .candidate ∧ saved < reply.term ∧ r.voteReply saved reply now =
      { r with state := r.state.becomeFollower reply.term now }) ∨
    (r.state.role = .candidate ∧ Wins saved reply ∧
      ((r.state.votesReceived + 1) * 2 ≤ (r.state.clusterConfig.size : Int) ∧
        r.voteReply saved reply now =
          { r with state := { r.state with votesReceived := r.state.votesReceived + 1 } } ∨
      (r.state.clusterConfig.size : Int) < (r.state.votesReceived + 1) * 2 ∧
        ∃ s, s = { r.state with votesReceived := r.state.votesReceived + 1 }.becomeLeader
            r.id r.peers.keys now ∧
          r.voteReply saved reply now =
            { r with state := s, hist := .becameLeader s :: r.hist })) := by
  by_cases role : r.state.role = .candidate
  · by_cases later : reply.term > saved
    · refine Or.inr (Or.inl ⟨role, later, ?_⟩)
      simp [voteReply, role, later]
    · by_cases wins : Wins saved reply
      · refine Or.inr (Or.inr ⟨role, wins, ?_⟩)
        by_cases enough : (r.state.votesReceived + 1) * 2 > (r.state.clusterConfig.size : Int)
        · refine Or.inr ⟨enough, _, rfl, ?_⟩
          simp [voteReply, role, wins.1, wins.2, enough]
        · refine Or.inl ⟨Int.not_lt.mp enough, ?_⟩
          simp [voteReply, role, wins.1, wins.2, enough]
      · refine Or.inl ⟨?_, fun _ => wins⟩
        have wins : ¬ (reply.term = saved ∧ reply.voteGranted = true) := wins
        simp only [voteReply, role, ne_eq, not_true_eq_false, if_false, later, wins]
  · exact Or.inl ⟨by simp [voteReply, role], fun h => absurd h role⟩

/-! Serving a request. -/

theorem observeTerm_candidate {term now : Int}
    (h : (r.observeTerm term now).role = .candidate) : r.observeTerm term now = r.state := by
  unfold observeTerm at h ⊢
  split at h
  · cases h
  · next lt => rw [if_neg lt]

theorem requestVote_id (r : Replica) (args : RequestVoteParams) (now : Int) :
    (r.requestVote args now).1.id = r.id ∧
    (r.requestVote args now).1.voteThreads = r.voteThreads ∧
    (r.requestVote args now).1.peers = r.peers ∧
    (r.requestVote args now).1.raftThread = r.raftThread ∧
    (r.requestVote args now).1.handlers = r.handlers := by
  simp only [requestVote]
  split_ifs <;> exact ⟨rfl, rfl, rfl, rfl, rfl⟩

/-- A vote that is given is recorded, and the reply carries its term. -/
theorem requestVote_granted {args : RequestVoteParams} {now : Int}
    (h : (r.requestVote args now).2.voteGranted = true) :
    (r.requestVote args now).2.term = args.term ∧
    .voted args.candidateId args.term ∈ (r.requestVote args now).1.hist := by
  simp only [requestVote] at h ⊢
  split_ifs at h ⊢ with _ g
  have term : (r.observeTerm args.term now).currentTerm = args.term := g.1.symm
  exact ⟨term, by rw [term]; exact List.mem_cons_self⟩

theorem requestVote_hist {args : RequestVoteParams} {now : Int} {e : Event} (h : e ∈ r.hist) :
    e ∈ (r.requestVote args now).1.hist := by
  simp only [requestVote]
  split_ifs
  · exact List.mem_cons_of_mem _ h
  · exact h
  · exact h

theorem Counts.requestVote (n : Counts r) (args : RequestVoteParams) (now : Int) :
    Counts (r.requestVote args now).1 := by
  obtain ⟨id, threads, _⟩ := r.requestVote_id args now
  refine n.change id threads (r.requestVote_term args now) ?_ fun _ _ => requestVote_hist
  intro role
  simp only [Replica.requestVote] at role ⊢
  split_ifs at role ⊢
  · have same := observeTerm_candidate role
    simp only [same] at role ⊢
    exact ⟨role, rfl, rfl⟩
  · have same := observeTerm_candidate role
    simp only [same] at role ⊢
    exact ⟨role, rfl, rfl⟩
  · exact ⟨role, rfl, rfl⟩

theorem observeLeader_candidate {args : AppendEntriesParams} {now : Int}
    (h : (r.observeLeader args now).role = .candidate) : r.state.role = .candidate ∧
      (r.observeLeader args now).currentTerm = r.state.currentTerm ∧
      (r.observeLeader args now).votesReceived = r.state.votesReceived := by
  simp only [observeLeader] at h ⊢
  split_ifs at h ⊢ <;> first | cases h | exact ⟨h, rfl, rfl⟩

theorem Counts.appendEntries (n : Counts r) (args : AppendEntriesParams) (now : Int) :
    Counts (r.appendEntries args now).1 := by
  have met : Counts { r with state := r.meetLeader args now } := by
    unfold meetLeader
    split
    · exact n
    · refine n.change rfl rfl ?_ observeLeader_candidate fun _ _ h => h
      change _ ≤ (r.observeLeader args now).currentTerm
      rw [observeLeader_term]
      exact le_max_left _ _
  exact met.keeps (r.quiet_appendEntries args now).toKeeps

end Replica

end OhMyDb
