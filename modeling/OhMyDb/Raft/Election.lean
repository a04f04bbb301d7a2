import OhMyDb.Raft.Tally
import OhMyDb.Raft.Fixed

/-!
Election safety. `VotedFor` is all a replica remembers of its vote, and both
`becomeLeader` and a step-down within the term clear it. While no replica grants a
second vote in a term, the majorities behind two elections of one term meet.
-/

namespace OhMyDb
open Execution

namespace Cluster
variable {c c' : Cluster}

/-- A replica that grants its vote has not voted for anybody else in the term. -/
def SingleVote (c : Cluster) : Action → Prop
  | .voteDeliver r k now => ∀ t ∈ (c.node r).voteThreads[k]?, ∀ args ∈ t.args,
      args.candidateId ∈ (c.node t.peer).peers → (c.node t.peer).grantsVote args now →
        ∀ v ∈ (c.node t.peer).votes, v.2 = args.term → v.1 = args.candidateId
  | _ => True

instance (c : Cluster) (a : Action) : Decidable (c.SingleVote a) :=
  match a with
  | .voteDeliver _ _ _ => inferInstanceAs (Decidable (∀ _, _ → ∀ _, _ → _ → _ → _))
  | .electionTick _ _ _ | .voteSend _ _ | .voteReturn _ _ _ _ | .voteFail _ _ | .raftImpl _
  | .appendSend _ _ _ | .appendDeliver _ _ _ | .appendResume _ _ | .appendReturn _ _ _ _
  | .appendFail _ _ | .executer _ _ | .clientGet _ _ | .clientPut _ _ _ | .addServer _ _
  | .removeServer _ _ | .callStep _ _ _ => inferInstanceAs (Decidable True)

/-- The votes on record: of launched servers, up to their terms, one for a term. -/
structure Ballots (c : Cluster) : Prop where
  server : ∀ v q t, .voted q t ∈ (c.node v).hist → v ∈ c.servers
  le : ∀ v q t, .voted q t ∈ (c.node v).hist → t ≤ c.currentTerm v
  unique : ∀ v q q' t, .voted q t ∈ (c.node v).hist → .voted q' t ∈ (c.node v).hist → q = q'

theorem Ballots.launch (servers : List Int) (config : Int → IntMap ServerInfo) :
    Ballots (launch servers config) := by
  have none (v : Int) {e : Event} (h : e ∈ ((Cluster.launch servers config).node v).hist) :
      False := by
    have fresh := (Replica.initialise_fresh v (config v)).hist
    exact nomatch (fresh ▸ h : e ∈ [])
  exact ⟨fun v _ _ h => (none v h).elim, fun v _ _ h => (none v h).elim,
    fun v _ _ _ h => (none v h).elim⟩

/-- The term of a replica that has just granted a vote is the vote's. -/
theorem voteDeliver_term {r now : Int} {k : Nat} {t : VoteThread} {args : RequestVoteParams}
    (tr : Transition c (.voteDeliver r k now) c') (ht : (c.node r).voteThreads[k]? = some t)
    (ha : t.args = some args) (member : args.candidateId ∈ (c.node t.peer).peers)
    (grants : (c.node t.peer).grantsVote args now) : c'.currentTerm t.peer = args.term := by
  cases tr with
  | voteDeliver r k now u args' hu ha' _ =>
      obtain rfl := Option.some.inj (hu.symm.trans ht)
      obtain rfl := Option.some.inj (ha'.symm.trans ha)
      rw [pushVoteReply_term]
      have term : ((c.node u.peer).requestVote args' now).1.state.currentTerm = args'.term := by
        simp only [Replica.requestVote]
        rw [if_neg (not_not.mpr member), if_pos grants]
        exact grants.1.symm
      simpa [currentTerm] using term

theorem Transition.voteDeliver_server {r now : Int} {k : Nat} {t : VoteThread}
    (tr : Transition c (.voteDeliver r k now) c') (ht : (c.node r).voteThreads[k]? = some t) :
    t.peer ∈ c.servers := by
  cases tr with
  | voteDeliver r k now u args hu _ hs =>
      obtain rfl := Option.some.inj (hu.symm.trans ht)
      exact hs

theorem electionTick_term {r now timeout : Int}
    (tr : Transition c (.electionTick r now timeout) c')
    (follower : (c.node r).state.role = .follower)
    (elapsed : now - (c.node r).state.electionResetEvent > timeout) :
    c'.currentTerm r = c.currentTerm r + 1 := by
  cases tr with
  | electionTick r now timeout =>
      simp only [currentTerm, set_node, Function.update_self, Replica.electionTick]
      rw [if_pos ⟨follower, elapsed⟩]
      rfl

theorem Ballots.step {a : Action} (b : Ballots c) (server : a.replica ∈ c.servers)
    (tr : Transition c a c') (noStepBack : c.NoStepBack a) (single : c.SingleVote a) :
    Ballots c' := by
  have mono (v : Int) : c.currentTerm v ≤ c'.currentTerm v := tr.term_le_iff.mpr noStepBack v
  -- a new vote is for the voter's new term, and the only one it has given there
  have new {v q t : Int} (h : .voted q t ∈ (c'.node v).hist) :
      .voted q t ∈ (c.node v).hist ∨ (v ∈ c.servers ∧ t = c'.currentTerm v ∧
        ∀ q', .voted q' t ∈ (c'.node v).hist → q' = q) := by
    cases tr.recorded rfl h with
    | old _ _ old => exact Or.inl old
    | candidacy now timeout follower elapsed =>
        refine Or.inr ⟨server, (electionTick_term tr follower elapsed).symm, fun q' h' => ?_⟩
        cases tr.recorded rfl h' with
        | old _ _ old =>
            have := b.le v q' _ old
            omega
        | candidacy _ _ _ _ => rfl
    | vote r now k u args hu ha hp member grants =>
        have hv : v ∈ c.servers := hp ▸ tr.voteDeliver_server hu
        have term := voteDeliver_term tr hu ha (hp ▸ member) (hp ▸ grants)
        refine Or.inr ⟨hv, hp ▸ term.symm, fun q' h' => ?_⟩
        have again := tr.recorded rfl h'
        generalize e : args.term = term at again
        cases again with
        | old _ _ old =>
            subst e
            exact single u hu args ha (hp ▸ member) (hp ▸ grants) (q', args.term)
              (hp ▸ Replica.mem_votes.mpr old) rfl
        | vote _ _ _ w args' hw ha' _ _ _ =>
            obtain rfl := Option.some.inj (hw.symm.trans hu)
            rw [Option.some.inj (ha'.symm.trans ha)]
  constructor
  case server =>
    intro v q t h
    rw [tr.servers]
    rcases new h with h | ⟨hs, _⟩
    · exact b.server v q t h
    · exact hs
  case le =>
    intro v q t h
    rcases new h with h | ⟨_, rfl, _⟩
    · exact (b.le v q t h).trans (mono v)
    · exact le_rfl
  case unique =>
    intro v q q' t h h'
    rcases new h with old | ⟨_, _, only⟩
    · rcases new h' with old' | ⟨_, _, only'⟩
      · exact b.unique v q q' t old old'
      · exact only' q h
    · exact (only q' h').symm

theorem Ballots.run {servers : List Int} {config : Int → IntMap ServerInfo}
    {h : List (Cluster × Action)} (run : Run Cluster.step (Cluster.launch servers config) h c)
    (noStepBack : Meets NoStepBack h) (single : Meets SingleVote h) : Ballots c :=
  run.stateInvariant (show Meets (fun c a => c.NoStepBack a ∧ c.SingleVote a) h from
      fun p hp => ⟨noStepBack p hp, single p hp⟩) (.launch servers config)
    fun _ _ _ b ok hs => b.step (Transition.of_step hs).1 (Transition.of_step hs).2 ok.1 ok.2

/-- Voters that are a majority of a larger configuration are one of the servers. -/
theorem Majority.isMajority {config : IntMap ServerInfo} {r : Int} {s : RaftState}
    {voters : List Int} (m : Majority c r s voters) (b : Ballots c)
    (servers : c.servers = config.keys) (members : ∀ p ∈ config, p ∈ s.clusterConfig) :
    Quorum.IsMajority config.keys.toFinset voters.toFinset := by
  constructor
  · intro v hv
    have server := b.server v r _ (m.voted v (List.mem_toFinset.mp hv))
    exact List.mem_toFinset.mpr (servers ▸ server)
  · have sub : config.keys.toFinset ⊆ s.clusterConfig.keys.toFinset := fun p hp =>
      List.mem_toFinset.mpr (AList.mem_keys.mp (members p (AList.mem_keys.mpr
        (List.mem_toFinset.mp hp))))
    have most := m.most
    have le := Finset.card_le_card sub
    rw [List.toFinset_card_of_nodup s.clusterConfig.keys_nodup] at le
    rw [List.toFinset_card_of_nodup m.nodup]
    exact lt_of_le_of_lt le most

/-- With a fixed membership the voters of an election are a majority of the servers. -/
theorem elected_majority {config : IntMap ServerInfo} {h : List (Cluster × Action)}
    (f : FixedRun config h c) (thisTerm : Meets VotesOfThisTerm h)
    (noStepBack : Meets NoStepBack h) (single : Meets SingleVote h) {r : Int} {s : RaftState}
    (elected : .becameLeader s ∈ (c.node r).hist) :
    ∃ A, Quorum.IsMajority config.keys.toFinset A ∧
      ∀ v ∈ A, .voted r s.currentTerm ∈ (c.node v).hist := by
  have known (p : Cluster × Action) (hp : p ∈ h) (r : Int) : (p.1.node r).Static config := by
    obtain ⟨h', _, run, _, sub⟩ := f.run.before hp
    exact FixedRun.static ⟨run, fun q hq => f.membership q (sub hq)⟩ r
  obtain ⟨voters, m, members⟩ := elections
    (P := fun s _ => ∀ p ∈ config, p ∈ s.clusterConfig) f.run thisTerm noStepBack
    (fun p hp r _ _ _ _ _ _ _ _ _ => (known p hp r).members) elected
  exact ⟨voters.toFinset,
    m.isMajority (Ballots.run f.run noStepBack single) f.servers members,
    fun v hv => m.voted v (List.mem_toFinset.mp hv)⟩

/-- Election safety: no two replicas become leader in one term. -/
def OneLeader (c : Cluster) : Prop :=
  ∀ r r' s s', .becameLeader s ∈ (c.node r).hist → .becameLeader s' ∈ (c.node r').hist →
    s.currentTerm = s'.currentTerm → r = r'

theorem oneLeader {config : IntMap ServerInfo} {h : List (Cluster × Action)}
    (f : FixedRun config h c) (thisTerm : Meets VotesOfThisTerm h)
    (noStepBack : Meets NoStepBack h) (single : Meets SingleVote h) : OneLeader c := by
  intro r r' s s' elected elected' same
  obtain ⟨A, majority, voted⟩ := elected_majority f thisTerm noStepBack single elected
  obtain ⟨B, majority', voted'⟩ := elected_majority f thisTerm noStepBack single elected'
  obtain ⟨v, hA, hB⟩ := majority.meet majority'
  have ballots := Ballots.run f.run noStepBack single
  exact ballots.unique v r r' _ (voted v hA) (same ▸ voted' v hB)

theorem fixedRun_outcome (config : IntMap ServerInfo) (as : List Action)
    (h : Meets (fun _ a => a.isMembership = false) (outcome step (fixed config) as).1) :
    FixedRun config (outcome step (fixed config) as).1 (outcome step (fixed config) as).2 :=
  ⟨outcome_run _ _ _, h⟩

theorem oneLeader_plainElection :
    ((outcome step (fixed threeServers) plainElection).2.node 1).leaderships ≠ [] ∧
    OneLeader (outcome step (fixed threeServers) plainElection).2 :=
  ⟨by decide +kernel, oneLeader (fixedRun_outcome _ _ (by decide +kernel)) (by decide +kernel)
    (by decide +kernel) (by decide +kernel)⟩

/-- Servers 1 and 2 both run in term 1. Server 1 wins with the vote of server 3;
its own vote is forgotten then, and it votes for server 2. -/
def twoLeaders : List Action :=
  [.electionTick 1 10 5, .electionTick 2 10 5,
    .voteSend 1 0, .voteDeliver 1 0 11, .voteReturn 1 0 ⟨1, true⟩ 12,
    .voteSend 2 1, .voteDeliver 2 1 13, .voteReturn 2 1 ⟨1, true⟩ 14]

theorem not_oneLeader : ¬ ∀ (config : IntMap ServerInfo) (h : List (Cluster × Action))
    (c : Cluster), FixedRun config h c → OneLeader c := by
  intro always
  have one := always _ _ _ (fixedRun_outcome threeServers twoLeaders (by decide +kernel))
  have elected : ∀ r ∈ [1, 2], ∃ s ∈ ((outcome step (fixed threeServers)
      twoLeaders).2.node r).leaderships, s.currentTerm = 1 := by
    decide +kernel
  obtain ⟨s, hs, term⟩ := elected 1 (by simp)
  obtain ⟨s', hs', term'⟩ := elected 2 (by simp)
  have same := one 1 2 s s' (Replica.mem_leaderships.mp hs) (Replica.mem_leaderships.mp hs')
    (term.trans term'.symm)
  exact absurd same (by decide)

end Cluster
end OhMyDb
