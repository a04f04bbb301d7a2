import OhMyDb.Raft.Counts
import OhMyDb.Lib.Quorum

/-!
The count of votes across the cluster. While no term is taken back and no vote
from an earlier election is counted, every vote a candidate has counted was
granted by the peer it stands for, in the candidate's present term.
-/

namespace OhMyDb
open Execution

namespace Cluster
variable {c c' : Cluster}

/-- A condition on the step in which a vote thread takes its reply. -/
def AtVoteReturn (P : Replica → Nat → VoteThread → RequestVoteRet → Prop) (c : Cluster) :
    Action → Prop
  | .voteReturn r k reply _ =>
      ∀ t ∈ (c.node r).voteThreads[k]?, P (c.node r) k t reply
  | _ => True

instance {P : Replica → Nat → VoteThread → RequestVoteRet → Prop}
    [∀ r k t reply, Decidable (P r k t reply)] (c : Cluster) (a : Action) :
    Decidable (AtVoteReturn P c a) :=
  match a with
  | .voteReturn _ _ _ _ => inferInstanceAs (Decidable (∀ _, _ → _))
  | .electionTick _ _ _ | .voteSend _ _ | .voteDeliver _ _ _ | .voteFail _ _ | .raftImpl _
  | .appendSend _ _ _ | .appendDeliver _ _ _ | .appendResume _ _ | .appendReturn _ _ _ _
  | .appendFail _ _ | .executer _ _ | .clientGet _ _ | .clientPut _ _ _ | .addServer _ _
  | .removeServer _ _ | .callStep _ _ _ => inferInstanceAs (Decidable True)

/-- Only votes of the present term are counted. -/
def VotesOfThisTerm : Cluster → Action → Prop :=
  AtVoteReturn fun r _ t reply => r.state.role = .candidate →
    Replica.Wins t.savedCurrentTerm reply → r.state.currentTerm = t.savedCurrentTerm

instance (c : Cluster) (a : Action) : Decidable (c.VotesOfThisTerm a) :=
  inferInstanceAs (Decidable (AtVoteReturn _ c a))

/-- Every vote that decides an election is a present member's. -/
def MembersCounted : Cluster → Action → Prop :=
  AtVoteReturn fun r k t reply => r.state.role = .candidate →
    Replica.Wins t.savedCurrentTerm reply →
      (r.state.clusterConfig.size : Int) < (r.state.votesReceived + 1) * 2 →
        ∀ v ∈ (r.countVote k reply).voters, v ∈ r.state.clusterConfig

instance (c : Cluster) (a : Action) : Decidable (c.MembersCounted a) :=
  inferInstanceAs (Decidable (AtVoteReturn _ c a))

structure Tally (c : Cluster) : Prop where
  id : ∀ r, (c.node r).id = r
  apart : ∀ r, (c.node r).Apart
  counts : ∀ r, (c.node r).Counts
  granted : ∀ r, ∀ t ∈ (c.node r).voteThreads, ∀ reply ∈ t.replies, reply.voteGranted = true →
    reply.term = t.savedCurrentTerm ∧ .voted r reply.term ∈ (c.node t.peer).hist

/-- One replica changes; the votes it has given stay on record. -/
theorem Tally.set (n : Tally c) {r : Int} {x : Replica} (id : x.id = r) (apart : x.Apart)
    (counts : x.Counts)
    (voted : ∀ q t, .voted q t ∈ (c.node r).hist → .voted q t ∈ x.hist)
    (granted : ∀ t ∈ x.voteThreads, ∀ reply ∈ t.replies, reply.voteGranted = true →
      reply.term = t.savedCurrentTerm ∧ .voted r reply.term ∈ (c.node t.peer).hist) :
    Tally (c.set r x) where
  id q := set_cases (P := fun y => y.id = q) (fun here => here ▸ id) fun _ => n.id q
  apart q := set_cases (fun _ => apart) fun _ => n.apart q
  counts q := set_cases (fun _ => counts) fun _ => n.counts q
  granted := by
    have keep {q t p : Int} (h : .voted q t ∈ (c.node p).hist) :
        .voted q t ∈ ((c.set r x).node p).hist := by
      by_cases e : p = r
      · subst e; simpa using voted q t h
      · simpa [e] using h
    intro q t ht reply hr g
    by_cases e : q = r
    · subst e
      rw [set_node, Function.update_self] at ht
      exact (granted t ht reply hr g).imp_right keep
    · rw [set_node, Function.update_of_ne e] at ht
      exact (n.granted q t ht reply hr g).imp_right keep

theorem Tally.quiet (n : Tally c) {r : Int} {x : Replica} {senders : List AppendThread}
    (q : Replica.Quiet (c.node r) x) : Tally (c.set r { x with appendThreads := senders }) :=
  n.set (q.id.trans (n.id r)) { (n.apart r).quiet q with } ((n.counts r).keeps { q.toKeeps with })
    (fun _ _ => q.voted.mpr) (by rw [q.voteThreads]; exact n.granted r)

/-- A thread of `r` changes, but not whom it asks, nor what it has been told. -/
theorem Tally.thread (n : Tally c) {r : Int} {x : Replica} {k : Nat}
    {f : VoteThread → VoteThread} (id : x.id = r) (apart : x.Apart)
    (counts : (x.updateVoteThread k f).Counts)
    (voted : ∀ q t, .voted q t ∈ (c.node r).hist → .voted q t ∈ x.hist)
    (threads : x.voteThreads = (c.node r).voteThreads)
    (same : ∀ t, (f t).peer = t.peer ∧ (f t).savedCurrentTerm = t.savedCurrentTerm ∧
      (f t).replies = t.replies) : Tally (c.set r (x.updateVoteThread k f)) := by
  refine n.set id ⟨apart.1, apart.2, apart.3⟩ counts voted ?_
  intro t ht reply hr g
  rcases List.mem_or_eq_of_mem_modify ht with ht | ⟨u, hu, rfl⟩
  · exact n.granted r t (threads ▸ ht) reply hr g
  · obtain ⟨p, saved, replies⟩ := same u
    rw [p, saved]
    exact n.granted r u (threads ▸ List.mem_of_getElem? hu) reply (replies ▸ hr) g

theorem Tally.voteReturn (n : Tally c) {r now : Int} {k : Nat} {reply : RequestVoteRet}
    {t : VoteThread} (ht : (c.node r).voteThreads[k]? = some t) (waiting : t.finished = false)
    (mem : reply ∈ t.replies) (thisTerm : c.VotesOfThisTerm (.voteReturn r k reply now))
    (noStepBack : c.NoStepBack (.voteReturn r k reply now)) :
    Tally (c.set r (((c.node r).voteReply t.savedCurrentTerm reply now).updateVoteThread k
      (VoteThread.close reply))) := by
  have counts := n.counts r
  have apart := n.apart r
  have unheard : t.counted (c.currentTerm r) = false :=
    counts.waiting (List.mem_of_getElem? ht) waiting _
  rcases (c.node r).voteReply_cases t.savedCurrentTerm reply now with
    ⟨e, noWin⟩ | ⟨role, later, e⟩ | ⟨role, wins, ⟨_, e⟩ | ⟨_, s, hs, e⟩⟩
  · rw [e]
    refine n.thread (n.id r) apart (counts.close ht mem ?_) (fun _ _ h => h) rfl
      fun _ => ⟨rfl, rfl, rfl⟩
    intro role
    refine Eq.trans ?_ unheard.symm
    simp only [VoteThread.counted, VoteThread.close, decide_eq_false_iff_not, not_and,
      Option.some.injEq]
    rintro same rfl
    exact noWin role ⟨same.symm, rfl⟩
  · rw [e]
    refine n.thread (n.id r) ⟨apart.1, apart.2, apart.3⟩ ?_ (fun _ _ h => h) rfl
      fun _ => ⟨rfl, rfl, rfl⟩
    refine Replica.Counts.close ?_ ht mem fun h => by cases h
    exact counts.change rfl rfl (noStepBack t ht role later) (fun h => by cases h) fun _ _ h => h
  · rw [e]
    exact n.thread (n.id r) ⟨apart.1, apart.2, apart.3⟩
      (counts.countVote ht mem waiting role (thisTerm t ht role wins) wins.1 wins.2)
      (fun _ _ h => h) rfl fun _ => ⟨rfl, rfl, rfl⟩
  · rw [e]
    refine n.thread (n.id r) ⟨apart.1, apart.2, apart.3⟩ ?_
      (fun _ _ h => List.mem_cons_of_mem _ h) rfl fun _ => ⟨rfl, rfl, rfl⟩
    have leads : s.role ≠ .candidate := by
      rw [hs]
      exact fun h => by cases h
    refine Replica.Counts.close ?_ ht mem fun h => absurd h leads
    exact counts.change rfl rfl (by rw [hs]; exact le_rfl) (fun h => absurd h leads)
      fun _ _ h => List.mem_cons_of_mem _ h

theorem Tally.requestVote (n : Tally c) (p now : Int) (args : RequestVoteParams) :
    Tally (c.set p ((c.node p).requestVote args now).1) := by
  obtain ⟨id, threads, peers, raftThread, handlers⟩ := (c.node p).requestVote_id args now
  refine n.set (id.trans (n.id p)) ⟨?_, ?_, ?_⟩ ((n.counts p).requestVote args now)
    (fun _ _ => Replica.requestVote_hist) (by rw [threads]; exact n.granted p)
  · rw [id, peers]; exact (n.apart p).peers
  · rw [id, raftThread]; exact (n.apart p).raftThread
  · rw [id, handlers]; exact (n.apart p).handlers

theorem Tally.voteDeliver (n : Tally c) {r now : Int} {k : Nat} {t : VoteThread}
    {args : RequestVoteParams} (ht : (c.node r).voteThreads[k]? = some t)
    (ha : t.args = some args) :
    Tally ((c.set t.peer ((c.node t.peer).requestVote args now).1).pushVoteReply r k
      ((c.node t.peer).requestVote args now).2) := by
  have served := n.requestVote t.peer now args
  obtain ⟨_, argsTerm⟩ := (n.counts r).args t (List.mem_of_getElem? ht) args ha
  obtain ⟨candidate, _⟩ := (n.counts r).args t (List.mem_of_getElem? ht) args ha
  have own : t.peer ≠ r := n.id r ▸ (n.counts r).peer_ne t (List.mem_of_getElem? ht)
  have same : (c.set t.peer ((c.node t.peer).requestVote args now).1).node r = c.node r := by
    simp [own.symm]
  unfold pushVoteReply
  rw [same]
  have counts := served.counts r
  have apart := served.apart r
  rw [same] at counts apart
  refine served.set (n.id r) ⟨apart.1, apart.2, apart.3⟩ ?_ (by rw [same]; exact fun _ _ h => h) ?_
  · exact counts.updateVoteThread ht (fun _ => ⟨rfl, rfl⟩)
      (counts.args t (List.mem_of_getElem? ht))
      (fun reply h => (counts.received t (List.mem_of_getElem? ht) reply h).imp_right
        (List.mem_cons_of_mem _)) fun _ => rfl
  · intro u hu reply hr g
    rcases List.mem_or_eq_of_mem_modify hu with hu | ⟨u, hk, rfl⟩
    · exact served.granted r u (by rwa [same]) reply hr g
    · obtain rfl := Option.some.inj (hk.symm.trans ht)
      rcases List.mem_cons.mp hr with rfl | hr
      · obtain ⟨term, voted⟩ := Replica.requestVote_granted g
        rw [candidate, n.id r] at voted
        rw [term]
        exact ⟨argsTerm, by simpa using voted⟩
      · exact served.granted r u (by rw [same]; exact List.mem_of_getElem? hk) reply hr g

theorem Tally.settle (n : Tally c) {p owner : Int} {k : Nat} {args : AppendEntriesParams}
    {x : Replica} {outcome : Replica.AppendOutcome} (id : x.id = p) (apart : x.Apart)
    (counts : x.Counts) (threads : x.voteThreads = (c.node p).voteThreads)
    (voted : ∀ q t, .voted q t ∈ (c.node p).hist → .voted q t ∈ x.hist)
    (suspended : ∀ u e rest, outcome = .suspended u e rest → u ≠ .addPeer x.id) :
    Tally (c.settleAppend p owner k args x outcome) := by
  cases outcome with
  | replied ret =>
      refine Tally.quiet (n.set id apart counts voted (by rw [threads]; exact n.granted p)) ?_
      exact .silent rfl rfl rfl rfl rfl rfl rfl rfl rfl rfl
  | suspended u e rest =>
      refine n.set id ⟨apart.1, apart.2, ?_⟩
        (counts.keeps ⟨rfl, rfl, rfl, rfl, rfl, fun _ _ => Iff.rfl, List.suffix_refl _, rfl⟩) voted
        (by rw [threads]; exact n.granted p)
      intro h hh
      rcases List.mem_append.mp hh with hh | hh
      · exact apart.3 h hh
      · obtain rfl := List.mem_singleton.mp hh
        exact fun eq => suspended u e rest rfl (Option.some.inj eq)

theorem Tally.step {a : Action} (n : Tally c) (tr : Transition c a c')
    (thisTerm : c.VotesOfThisTerm a) (noStepBack : c.NoStepBack a) : Tally c' := by
  cases tr with
  | electionTick r now timeout =>
      unfold Replica.electionTick
      split
      · have counts := (n.counts r).startElection (n.apart r) now
        refine n.set (n.id r) ⟨(n.apart r).1, (n.apart r).2, (n.apart r).3⟩ counts
          (fun _ _ => List.mem_cons_of_mem _) ?_
        intro t ht reply hr g
        rcases List.mem_append.mp ht with ht | ht
        · exact n.granted r t ht reply hr g
        · obtain ⟨p, _, rfl⟩ := List.mem_map.mp ht
          cases hr
      · exact n.quiet (.refl _)
  | voteSend r k t ht _ _ _ =>
      refine n.thread (n.id r) (n.apart r) ?_ (fun _ _ h => h) rfl fun _ => ⟨rfl, rfl, rfl⟩
      refine (n.counts r).updateVoteThread ht (fun _ => ⟨rfl, rfl⟩) ?_
        ((n.counts r).received t (List.mem_of_getElem? ht)) fun _ => rfl
      rintro _ ⟨⟩
      exact ⟨rfl, rfl⟩
  | voteDeliver r k now t args ht ha _ => exact n.voteDeliver ht ha
  | voteReturn r k reply now t ht waiting mem =>
      exact n.voteReturn ht waiting mem thisTerm noStepBack
  | voteFail r k t ht _ =>
      refine n.thread (n.id r) (n.apart r) ?_ (fun _ _ h => h) rfl fun _ => ⟨rfl, rfl, rfl⟩
      exact (n.counts r).updateVoteThread ht (fun _ => ⟨rfl, rfl⟩)
        ((n.counts r).args t (List.mem_of_getElem? ht))
        (fun reply h => ⟨rfl, ((n.counts r).received t (List.mem_of_getElem? ht) reply h).2⟩)
        fun _ => rfl
  | raftImpl r =>
      have k := (c.node r).keeps_raftImpl
      exact n.set (k.id.trans (n.id r)) (n.apart r).raftImpl ((n.counts r).keeps k)
        (fun _ _ => k.voted.mpr) (by rw [k.voteThreads]; exact n.granted r)
  | appendSend r k junk t _ _ _ _ =>
      exact n.quiet (.silent rfl rfl rfl rfl rfl rfl rfl rfl rfl rfl)
  | appendDeliver r k now t args _ _ _ =>
      have q := (c.node t.peer).quiet_appendEntries args now
      have apart : Replica.Apart
          { c.node t.peer with state := (c.node t.peer).meetLeader args now } :=
        ⟨(n.apart _).1, (n.apart _).2, (n.apart _).3⟩
      refine n.settle (q.id.trans (n.id _)) (apart.quiet q)
        ((n.counts _).appendEntries args now) q.voteThreads (fun _ _ => q.voted.mpr) ?_
      intro u e rest h
      have ne := Replica.appendEntries_update h
      rwa [q.id]
  | appendUpdate p j h peer hj hu =>
      have k := (c.node p).keeps_updatePeers peer
      have ne : peer ≠ .addPeer (c.node p).id := fun e =>
        (n.apart p).handlers h (List.mem_of_getElem? hj) (by rw [hu, e])
      refine n.set (k.id.trans (n.id p)) ⟨?_, ?_, ?_⟩
        ((n.counts p).keeps { k with })
        (fun _ _ => k.voted.mpr) (by rw [k.voteThreads]; exact n.granted p)
      · change ((c.node p).updatePeers peer).id ∉ ((c.node p).updatePeers peer).peers
        rw [k.id]
        exact (n.apart p).updatePeers ne
      · cases peer <;> exact (n.apart p).raftThread
      · intro x hx
        rcases List.mem_or_eq_of_mem_set hx with hx | rfl
        · cases peer <;> exact (n.apart p).handlers x hx
        · exact fun h => nomatch h
  | appendResume p j h hj hu =>
      have drop : Replica.Keeps (c.node p)
          { c.node p with handlers := (c.node p).handlers.eraseIdx j } :=
        ⟨rfl, rfl, rfl, rfl, rfl, fun _ _ => Iff.rfl, List.suffix_refl _, rfl⟩
      have apart : Replica.Apart
          { c.node p with handlers := (c.node p).handlers.eraseIdx j } :=
        ⟨(n.apart p).1, (n.apart p).2,
          fun x hx => (n.apart p).3 x (List.mem_of_mem_eraseIdx hx)⟩
      have check := Replica.quiet_checkIndex
        { c.node p with handlers := (c.node p).handlers.eraseIdx j } h.current
      have q := check.trans (Replica.quiet_appendRest _ h.args h.rest)
      have k := drop.trans q.toKeeps
      refine n.settle (k.id.trans (n.id p)) (apart.quiet q) ((n.counts p).keeps k)
        k.voteThreads (fun _ _ => k.voted.mpr) ?_
      intro u e rest eq
      have ne := Replica.appendRest_update eq
      rwa [k.id, ← drop.id, ← check.id]
  | appendReturn r k reply now t args ht _ _ _ =>
      rcases (c.node r).appendReply_cases t.peer t.savedCurrentTerm t.nextIndex
        args.entries.length reply now with ⟨later, e⟩ | ⟨_, q⟩
      · rw [e]
        refine n.set (n.id r) ⟨(n.apart r).1, (n.apart r).2, (n.apart r).3⟩ ?_
          (fun _ _ h => h) (n.granted r)
        exact (n.counts r).change rfl rfl (noStepBack t ht later) (fun h => nomatch h)
          fun _ _ h => h
      · exact n.quiet q
  | appendFail r k t _ _ =>
      exact n.quiet (.silent rfl rfl rfl rfl rfl rfl rfl rfl rfl rfl)
  | executer r ok => exact n.quiet ((c.node r).quiet_executer ok)
  | clientGet r key => exact n.quiet ((c.node r).quiet_clientCall _)
  | clientPut r key value => exact n.quiet ((c.node r).quiet_clientCall _)
  | addServer r args => exact n.quiet ((c.node r).quiet_addServer args)
  | removeServer r serverId => exact n.quiet ((c.node r).quiet_removeServer serverId)
  | callStep r j now call p hc hp =>
      rcases Replica.advance_cases hp with ⟨down, e⟩ | ⟨_, q⟩
      · rw [e]
        refine n.set (n.id r) ⟨(n.apart r).1, (n.apart r).2, (n.apart r).3⟩ ?_
          (fun _ _ h => h) (n.granted r)
        exact (n.counts r).change rfl rfl (noStepBack call hc down) (fun h => nomatch h)
          fun _ _ h => h
      · have quiet : Replica.Quiet (c.node r) { p.1 with calls := p.1.calls.set j p.2 } :=
          q.trans (.silent rfl rfl rfl rfl rfl rfl rfl rfl rfl rfl)
        exact n.quiet quiet

theorem Tally.launch (servers : List Int) (config : Int → IntMap ServerInfo) :
    Tally (launch servers config) := by
  have fresh (r : Int) : ((Cluster.launch servers config).node r).Fresh r :=
    Replica.initialise_fresh r (config r)
  constructor
  case id => exact fun r => (fresh r).id
  case apart =>
    intro r
    refine ⟨?_, ?_, ?_⟩
    · rw [(fresh r).id]
      have configured := Replica.initialise_configured r (config r)
      exact fun h => ((configured.peers r).mp h).2 (fresh r).id.symm
    · rw [(fresh r).raftThread]
      exact fun _ _ h => by cases h
    · rw [(fresh r).handlers]
      exact fun _ h => absurd h List.not_mem_nil
  case counts =>
    intro r
    have none := (fresh r).voteThreads
    have role : ((Cluster.launch servers config).node r).state.role ≠ .candidate := by
      rw [(fresh r).role]
      decide
    refine ⟨?_, ?_, ?_, ?_, ?_, fun h => absurd h role, fun h => absurd h role⟩ <;>
      simp [Replica.ballots, none]
  case granted =>
    intro r
    rw [(fresh r).voteThreads]
    exact fun _ h => absurd h List.not_mem_nil

theorem Tally.run {servers : List Int} {config : Int → IntMap ServerInfo}
    {h : List (Cluster × Action)} (run : Run Cluster.step (Cluster.launch servers config) h c)
    (thisTerm : Meets VotesOfThisTerm h) (noStepBack : Meets NoStepBack h) : Tally c :=
  run.stateInvariant (show Meets (fun c a => c.VotesOfThisTerm a ∧ c.NoStepBack a) h from
      fun p hp => ⟨thisTerm p hp, noStepBack p hp⟩) (.launch servers config)
    fun _ _ _ n ok hs => n.step (Transition.of_step hs).2 ok.1 ok.2

theorem pushVoteReply_hist (c : Cluster) (r : Int) (k : Nat) (ret : RequestVoteRet) (q : Int) :
    ((c.pushVoteReply r k ret).node q).hist = (c.node q).hist :=
  pushVoteReply_same (·.hist) (fun _ _ _ => rfl) r k ret q

theorem settleAppend_hist (c : Cluster) (p owner : Int) (k : Nat) (args : AppendEntriesParams)
    (x : Replica) (outcome : Replica.AppendOutcome) (q : Int) :
    ((c.settleAppend p owner k args x outcome).node q).hist = ((c.set p x).node q).hist :=
  settleAppend_same (·.hist) (fun _ _ _ => rfl) (fun _ _ => rfl) p owner k args x outcome q

theorem set_grows {q r : Int} {x : Replica} (h : (c.node r).hist <:+ x.hist) :
    (c.node q).hist <:+ ((c.set r x).node q).hist :=
  set_cases (P := fun y => (c.node q).hist <:+ y.hist) (fun here => here ▸ h)
    fun _ => List.suffix_rfl

/-- What has happened stays on record. -/
theorem Transition.grows {a : Action} {q : Int} (tr : Transition c a c') :
    (c.node q).hist <:+ (c'.node q).hist := by
  cases tr with
  | electionTick r now timeout =>
      refine set_grows ?_
      unfold Replica.electionTick
      split
      · exact List.suffix_cons _ _
      · exact List.suffix_refl _
  | voteSend r k t _ _ _ _ => exact set_grows (List.suffix_refl _)
  | voteDeliver r k now t args _ _ _ =>
      rw [pushVoteReply_hist]
      refine set_grows ?_
      simp only [Replica.requestVote]
      split_ifs
      · exact List.suffix_cons _ _
      · exact List.suffix_refl _
      · exact List.suffix_refl _
  | voteReturn r k reply now t _ _ _ =>
      refine set_grows ?_
      change _ <:+ ((c.node r).voteReply t.savedCurrentTerm reply now).hist
      rcases (c.node r).voteReply_cases t.savedCurrentTerm reply now with
        ⟨eq, _⟩ | ⟨_, _, eq⟩ | ⟨_, _, ⟨_, eq⟩ | ⟨_, s, _, eq⟩⟩ <;> rw [eq]
      exact List.suffix_cons _ _
  | voteFail r k t _ _ => exact set_grows (List.suffix_refl _)
  | raftImpl r => exact set_grows (c.node r).keeps_raftImpl.grows
  | appendSend r k junk t _ _ _ _ => exact set_grows (List.suffix_refl _)
  | appendDeliver r k now t args _ _ _ =>
      rw [settleAppend_hist]
      exact set_grows ((c.node t.peer).quiet_appendEntries args now).grows
  | appendUpdate p j h peer _ _ => exact set_grows ((c.node p).keeps_updatePeers peer).grows
  | appendResume p j h _ _ =>
      rw [settleAppend_hist]
      have check := Replica.quiet_checkIndex
        { c.node p with handlers := (c.node p).handlers.eraseIdx j } h.current
      exact set_grows (check.trans (Replica.quiet_appendRest _ h.args h.rest)).grows
  | appendReturn r k reply now t args _ _ _ _ =>
      refine set_grows ?_
      rcases (c.node r).appendReply_cases t.peer t.savedCurrentTerm t.nextIndex
        args.entries.length reply now with ⟨_, eq⟩ | ⟨_, q⟩
      · exact eq ▸ List.suffix_refl _
      · exact q.grows
  | appendFail r k t _ _ => exact set_grows (List.suffix_refl _)
  | executer r ok => exact set_grows ((c.node r).quiet_executer ok).grows
  | clientGet r key => exact set_grows ((c.node r).quiet_clientCall _).grows
  | clientPut r key value => exact set_grows ((c.node r).quiet_clientCall _).grows
  | addServer r args => exact set_grows ((c.node r).quiet_addServer args).grows
  | removeServer r serverId => exact set_grows ((c.node r).quiet_removeServer serverId).grows
  | callStep r j now call p _ hp =>
      refine set_grows ?_
      rcases Replica.advance_cases hp with ⟨_, eq⟩ | ⟨_, q⟩
      · exact eq ▸ List.suffix_refl _
      · exact q.grows

/-- Where a vote or a new leadership on record comes from. -/
inductive Recorded (c : Cluster) (q : Int) : Action → Event → Prop where
  | old (a : Action) (e : Event) : e ∈ (c.node q).hist → Recorded c q a e
  | candidacy (now timeout : Int) : (c.node q).state.role = .follower →
      now - (c.node q).state.electionResetEvent > timeout →
      Recorded c q (.electionTick q now timeout) (.voted (c.node q).id (c.currentTerm q + 1))
  | vote (r now : Int) (k : Nat) (t : VoteThread) (args : RequestVoteParams) :
      (c.node r).voteThreads[k]? = some t → t.args = some args → t.peer = q →
      args.candidateId ∈ (c.node q).peers → (c.node q).grantsVote args now →
      Recorded c q (.voteDeliver r k now) (.voted args.candidateId args.term)
  | election (now : Int) (k : Nat) (t : VoteThread) (reply : RequestVoteRet) :
      (c.node q).voteThreads[k]? = some t → t.finished = false → reply ∈ t.replies →
      (c.node q).state.role = .candidate → Replica.Wins t.savedCurrentTerm reply →
      ((c.node q).state.clusterConfig.size : Int) < ((c.node q).state.votesReceived + 1) * 2 →
      Recorded c q (.voteReturn q k reply now) (.becameLeader
        ({ (c.node q).state with
          votesReceived := (c.node q).state.votesReceived + 1 }.becomeLeader
            (c.node q).id (c.node q).peers.keys now))

theorem Recorded.set {a : Action} {e : Event} {q r : Int} {x : Replica}
    (h : e ∈ ((c.set r x).node q).hist) (self : e ∈ x.hist → Recorded c r a e) :
    Recorded c q a e := by
  by_cases eq : q = r
  · subst eq
    exact self (by simpa using h)
  · exact .old a e (by simpa [eq] using h)

theorem Recorded.keeps {a : Action} {e : Event} {q r : Int} {x : Replica}
    (h : e ∈ ((c.set r x).node q).hist) (he : e.isElection = true)
    (k : Replica.Keeps (c.node r) x) : Recorded c q a e :=
  .set h fun h => .old a e ((k.hist e he).mp h)

theorem Transition.recorded {a : Action} {e : Event} {q : Int} (tr : Transition c a c')
    (he : e.isElection = true) (h : e ∈ (c'.node q).hist) : Recorded c q a e := by
  cases tr with
  | electionTick r now timeout =>
      refine .set h fun h => ?_
      unfold Replica.electionTick at h
      split at h
      · next elapsed =>
        rcases List.mem_cons.mp h with rfl | h
        · exact .candidacy now timeout elapsed.1 elapsed.2
        · exact .old _ e h
      · exact .old _ e h
  | voteSend r k t _ _ _ _ => exact .set h (.old _ e)
  | voteDeliver r k now t args ht ha _ =>
      rw [pushVoteReply_hist] at h
      by_cases eq : q = t.peer
      · subst eq
        rw [set_node, Function.update_self] at h
        simp only [Replica.requestVote] at h
        split_ifs at h with member g
        · rcases List.mem_cons.mp h with rfl | h
          · rw [← g.1]
            exact .vote r now k t args ht ha rfl member g
          · exact .old _ e h
        · exact .old _ e h
        · exact .old _ e h
      · exact .old _ e (by simpa [eq] using h)
  | voteReturn r k reply now t ht waiting mem =>
      refine .set h fun h => ?_
      change e ∈ ((c.node r).voteReply t.savedCurrentTerm reply now).hist at h
      rcases (c.node r).voteReply_cases t.savedCurrentTerm reply now with
        ⟨eq, _⟩ | ⟨_, _, eq⟩ | ⟨role, wins, ⟨_, eq⟩ | ⟨enough, s, hs, eq⟩⟩ <;> rw [eq] at h
      · exact .old _ e h
      · exact .old _ e h
      · exact .old _ e h
      · rcases List.mem_cons.mp h with rfl | h
        · rw [hs]
          exact .election now k t reply ht waiting mem role wins enough
        · exact .old _ e h
  | voteFail r k t _ _ => exact .set h (.old _ e)
  | raftImpl r => exact .keeps h he (c.node r).keeps_raftImpl
  | appendSend r k junk t _ _ _ _ => exact .set h (.old _ e)
  | appendDeliver r k now t args _ _ _ =>
      have k := (c.node t.peer).quiet_appendEntries args now
      rw [settleAppend_hist] at h
      exact .set h fun h => .old _ e ((k.hist e he).mp h)
  | appendUpdate p j h' peer _ _ =>
      exact .keeps h he { (c.node p).keeps_updatePeers peer with }
  | appendResume p j h' _ _ =>
      have check := Replica.quiet_checkIndex
        { c.node p with handlers := (c.node p).handlers.eraseIdx j } h'.current
      have k := check.trans (Replica.quiet_appendRest _ h'.args h'.rest)
      rw [settleAppend_hist] at h
      exact .set h fun h => .old _ e ((k.hist e he).mp h)
  | appendReturn r k reply now t args _ _ _ _ =>
      refine .set h fun h => ?_
      rcases (c.node r).appendReply_cases t.peer t.savedCurrentTerm t.nextIndex
        args.entries.length reply now with ⟨_, eq⟩ | ⟨_, q⟩
      · exact .old _ e (by simpa [eq, Replica.updateAppendThread] using h)
      · exact .old _ e ((q.hist e he).mp h)
  | appendFail r k t _ _ => exact .set h (.old _ e)
  | executer r ok => exact .keeps h he ((c.node r).quiet_executer ok).toKeeps
  | clientGet r key => exact .keeps h he ((c.node r).quiet_clientCall _).toKeeps
  | clientPut r key value => exact .keeps h he ((c.node r).quiet_clientCall _).toKeeps
  | addServer r args => exact .keeps h he ((c.node r).quiet_addServer args).toKeeps
  | removeServer r serverId => exact .keeps h he ((c.node r).quiet_removeServer serverId).toKeeps
  | callStep r j now call p hc hp =>
      refine .set h fun h => ?_
      rcases Replica.advance_cases hp with ⟨_, eq⟩ | ⟨_, q⟩
      · exact .old _ e (by simpa [eq] using h)
      · exact .old _ e ((q.hist e he).mp h)

/-! Elections that are won. -/

/-- The voters of an election that is about to be won. -/
structure Majority (c : Cluster) (r : Int) (s : RaftState) (voters : List Int) : Prop where
  nodup : voters.Nodup
  most : s.clusterConfig.size < 2 * voters.length
  voted : ∀ v ∈ voters, .voted r s.currentTerm ∈ (c.node v).hist

theorem Tally.voters (n : Tally c) {r : Int} (role : (c.node r).state.role = .candidate) :
    ∀ v ∈ (c.node r).voters, .voted r (c.currentTerm r) ∈ (c.node v).hist := by
  intro v hv
  rcases List.mem_cons.mp hv with rfl | hv
  · have := (n.counts r).self role
    rw [n.id r] at this ⊢
    exact this
  · obtain ⟨t, ht, rfl⟩ := List.mem_map.mp hv
    obtain ⟨ht, counted⟩ := List.mem_filter.mp ht
    simp only [VoteThread.counted, decide_eq_true_eq] at counted
    have mem := ((n.counts r).received t ht _ counted.2).2
    exact (n.granted r t ht _ mem rfl).2

/-- A reply that decides an election has a majority of votes behind it. -/
theorem Tally.election (n : Tally c) {q now : Int} {k : Nat} {t : VoteThread}
    {reply : RequestVoteRet} (ht : (c.node q).voteThreads[k]? = some t)
    (waiting : t.finished = false) (mem : reply ∈ t.replies)
    (role : (c.node q).state.role = .candidate) (wins : Replica.Wins t.savedCurrentTerm reply)
    (enough : ((c.node q).state.clusterConfig.size : Int) <
      ((c.node q).state.votesReceived + 1) * 2)
    (thisTerm : c.VotesOfThisTerm (.voteReturn q k reply now)) {s : RaftState}
    (term : s.currentTerm = c.currentTerm q)
    (config : s.clusterConfig = (c.node q).state.clusterConfig) :
    Majority c q s ((c.node q).countVote k reply).voters := by
  have counts := (n.counts q).countVote ht mem waiting role
    (thisTerm t ht role wins) wins.1 wins.2
  have counted : Tally (c.set q ((c.node q).countVote k reply)) :=
    n.thread (n.id q) ⟨(n.apart q).1, (n.apart q).2, (n.apart q).3⟩ counts (fun _ _ h => h) rfl
      fun _ => ⟨rfl, rfl, rfl⟩
  have same (v : Int) :
      ((c.set q ((c.node q).countVote k reply)).node v).hist = (c.node v).hist := by
    by_cases e : v = q
    · subst e; simp [Replica.countVote, Replica.updateVoteThread]
    · simp [e]
  have voted := counted.voters (r := q)
    (by rw [set_node, Function.update_self]; exact role)
  have len := Replica.voters_length ((c.node q).countVote k reply)
  have tally := counts.tally role
  refine ⟨counts.voters_nodup, ?_, ?_⟩
  · change (c.node q).state.votesReceived + 1 = _ at tally
    rw [config, len]
    omega
  · intro v hv
    rw [← same v, term]
    simpa [currentTerm, Replica.countVote, Replica.updateVoteThread] using
      voted v (by simpa using hv)

theorem Majority.mono {r : Int} {s : RaftState} {voters : List Int} {a : Action}
    (m : Majority c r s voters) (tr : Transition c a c') : Majority c' r s voters :=
  ⟨m.nodup, m.most, fun v hv => tr.grows.subset (m.voted v hv)⟩

/-- What holds of every election when it is decided holds of every election on
record, next to the majority that decided it. -/
theorem elections {servers : List Int} {config : Int → IntMap ServerInfo}
    {h : List (Cluster × Action)} {P : RaftState → List Int → Prop}
    (run : Run Cluster.step (Cluster.launch servers config) h c)
    (thisTerm : Meets VotesOfThisTerm h) (noStepBack : Meets NoStepBack h)
    (decided : ∀ p ∈ h, ∀ r k reply now, ∀ t ∈ (p.1.node r).voteThreads[k]?,
      p.2 = .voteReturn r k reply now → (p.1.node r).state.role = .candidate →
      Replica.Wins t.savedCurrentTerm reply →
      ((p.1.node r).state.clusterConfig.size : Int) <
        ((p.1.node r).state.votesReceived + 1) * 2 →
      P ({ (p.1.node r).state with
          votesReceived := (p.1.node r).state.votesReceived + 1 }.becomeLeader
            (p.1.node r).id (p.1.node r).peers.keys now)
        ((p.1.node r).countVote k reply).voters)
    {r : Int} {s : RaftState} (elected : .becameLeader s ∈ (c.node r).hist) :
    ∃ voters, Majority c r s voters ∧ P s voters := by
  induction run generalizing r s with
  | start =>
      have none := (Replica.initialise_fresh r (config r)).hist
      exact nomatch (none ▸ elected : Event.becameLeader s ∈ [])
  | next run hs ih =>
      have tr := (Transition.of_step hs).2
      have n := Tally.run run thisTerm.tail noStepBack.tail
      cases tr.recorded rfl elected with
      | old _ _ old =>
          obtain ⟨voters, m, hP⟩ := ih thisTerm.tail noStepBack.tail
            (fun p hp => decided p (List.mem_cons_of_mem _ hp)) old
          exact ⟨voters, m.mono tr, hP⟩
      | election now k t reply ht waiting mem role wins enough =>
          refine ⟨_, Majority.mono ?_ tr,
            decided _ List.mem_cons_self r k reply now t ht rfl role wins enough⟩
          exact n.election ht waiting mem role wins enough thisTerm.head rfl rfl

/-- Behind every leadership on record is a majority of the members, each of which
has granted its vote for the term. -/
def WonByMajority (c : Cluster) : Prop :=
  ∀ r s, .becameLeader s ∈ (c.node r).hist →
    ∃ A, Quorum.IsMajority s.clusterConfig.keys.toFinset A ∧
      ∀ v ∈ A, .voted r s.currentTerm ∈ (c.node v).hist

theorem wonByMajority {servers : List Int} {config : Int → IntMap ServerInfo}
    {h : List (Cluster × Action)} (run : Run Cluster.step (Cluster.launch servers config) h c)
    (thisTerm : Meets VotesOfThisTerm h) (noStepBack : Meets NoStepBack h)
    (members : Meets MembersCounted h) : WonByMajority c := by
  intro r s elected
  obtain ⟨voters, m, member⟩ := elections (P := fun s voters => ∀ v ∈ voters, v ∈ s.clusterConfig)
    run thisTerm noStepBack (fun p hp r k reply now t ht ha role wins enough =>
      (ha ▸ members p hp : MembersCounted p.1 (.voteReturn r k reply now)) t ht role wins enough)
    elected
  refine ⟨voters.toFinset, ⟨?_, ?_⟩, fun v hv => m.voted v (List.mem_toFinset.mp hv)⟩
  · intro v hv
    exact List.mem_toFinset.mpr (AList.mem_keys.mp (member v (List.mem_toFinset.mp hv)))
  · rw [List.toFinset_card_of_nodup m.nodup,
      List.toFinset_card_of_nodup s.clusterConfig.keys_nodup]
    exact m.most

/-- Server 1 asks for a vote in term 1 and gets it from server 3. -/
def plainElection : List Action :=
  [.electionTick 1 10 5, .voteSend 1 0, .voteDeliver 1 0 11, .voteReturn 1 0 ⟨1, true⟩ 12]

theorem wonByMajority_plainElection :
    ((outcome step (launch [1, 2, 3] fun _ => threeServers) plainElection).2.node
      1).leaderships ≠ [] ∧
    WonByMajority (outcome step (launch [1, 2, 3] fun _ => threeServers) plainElection).2 :=
  ⟨by decide +kernel, wonByMajority (outcome_run _ _ _) (by decide +kernel) (by decide +kernel)
    (by decide +kernel)⟩

/-- The vote server 3 grants server 1 in term 1 arrives when server 1, which has
heard of term 2 in between, runs in term 3. -/
def staleVote : List Action :=
  [.electionTick 1 10 5, .voteSend 1 0, .voteDeliver 1 0 11,
    .electionTick 3 20 5, .voteSend 3 1, .voteDeliver 3 1 21,
    .electionTick 1 40 5, .voteReturn 1 0 ⟨1, true⟩ 41]

/-- Server 1 becomes the leader of term 3 with its own vote only. -/
theorem not_wonByMajority : ¬ ∀ (servers : List Int) (config : Int → IntMap ServerInfo)
    (h : List (Cluster × Action)) (c : Cluster),
    Run Cluster.step (launch servers config) h c → WonByMajority c := by
  intro always
  have run := outcome_run step (launch [1, 2, 3] fun _ => threeServers) staleVote
  have elected : ∃ s ∈ ((outcome step (launch [1, 2, 3] fun _ => threeServers)
      staleVote).2.node 1).leaderships, s.currentTerm = 3 ∧ s.clusterConfig.keys = [1, 2, 3] := by
    decide +kernel
  have alone : ∀ v ∈ [1, 2, 3], (1, 3) ∈ ((outcome step
      (launch [1, 2, 3] fun _ => threeServers) staleVote).2.node v).votes → v = 1 := by
    decide +kernel
  obtain ⟨s, hs, term, members⟩ := elected
  obtain ⟨A, ⟨sub, most⟩, voted⟩ := always _ _ _ _ run 1 s (Replica.mem_leaderships.mp hs)
  rw [members] at sub most
  have one : A ⊆ {1} := by
    intro v hv
    have mem := List.mem_toFinset.mp (sub hv)
    exact Finset.mem_singleton.mpr (alone v mem (Replica.mem_votes.mpr (term ▸ voted v hv)))
  have := Finset.card_le_card one
  simp at this most
  omega

end Cluster
end OhMyDb
