import OhMyDb.Raft.Merge
import OhMyDb.Raft.Commit
import OhMyDb.Raft.Election
import OhMyDb.Lib.LeaderLog.Evolution

/-!
How a cluster stands for a state of leader-based replication. The relation has
three levels. Logs, terms and votes are always related. When leaderships end
where the code believes them to end, so are acknowledgements and the leaders'
maps, and when only present leaders send, the commit indices are too.
-/

namespace OhMyDb
open Execution
open LeaderLog (Steps Discipline Voting Matching Sound Agreed Evolves Elsewhere Certified Held)

abbrev AbstractState := LeaderLog.State Int Command

abbrev quorums (config : IntMap ServerInfo) : Quorum.System Int :=
  Quorum.majorities config.keys.toFinset

def RaftRole.abstract : RaftRole → LeaderLog.Role
  | .follower | .dead => .follower
  | .candidate => .candidate
  | .leader => .leader

theorem RaftRole.abstract_leader {role : RaftRole} : role.abstract = .leader ↔ role = .leader := by
  cases role <;> simp [abstract]

theorem LogVector.lastTerm_abstract (v : LogVector) :
    LeaderLog.lastTerm (abstractLog v.items) = v.lastTerm := by
  rw [LeaderLog.lastTerm, abstractLog, List.getLast?_map, LogVector.lastTerm]
  cases v.items.getLast? <;> rfl

/-- How much of the protocol a run keeps to. -/
inductive Level where
  | matching
  | counting
  | executing

namespace Level
variable {ℓ : Level} {config : IntMap ServerInfo} {b b' : AbstractState}

def discipline : Level → Discipline Int Command
  | .matching => .anyone
  | .counting => .pastLeader
  | .executing => .presentLeader

/-- The abstract states that are reached. -/
abbrev Reached (ℓ : Level) (config : IntMap ServerInfo) (b : AbstractState) : Prop :=
  Steps (quorums config) ℓ.discipline .init b

theorem Reached.voting (h : ℓ.Reached config b) : Voting (quorums config) b :=
  Voting.init.steps h

theorem Reached.matching (h : ℓ.Reached config b) : Matching b :=
  Matching.init.steps Voting.init h

theorem Reached.sound (h : ℓ.Reached config b) (hl : ℓ ≠ .matching) :
    Sound (quorums config) b := by
  cases ℓ with
  | matching => exact absurd rfl hl
  | counting => exact Sound.init.steps h
  | executing => exact (Agreed.steps h).1

theorem Reached.agreed (h : ℓ.Reached config b) (hl : ℓ = .executing) : Agreed b := by
  subst hl
  exact (Agreed.steps h).2

theorem Reached.evolves (h : ℓ.Reached config b)
    (steps : Steps (quorums config) ℓ.discipline b b') : Evolves b b' :=
  steps.evolves h.voting h.matching

end Level

/-! What one replica shares with the abstract state. -/

/-- Its term, role and log. -/
structure Mirrors (ℓ : Level) (b : AbstractState) (n : Int) (s : RaftState) : Prop where
  term : b.term n = s.currentTerm
  role : b.role n = s.role.abstract
  alive : s.role ≠ .dead
  log : b.log n = abstractLog s.logs.items
  commit : ℓ = .executing → (b.commit n : Int) = s.commitIndex + 1

/-- The votes it has given. -/
def Voted (b : AbstractState) (n : Int) (hist : List Event) : Prop :=
  ∀ q t, .voted q t ∈ hist ↔ ∃ w ∈ b.votes, w.voter = n ∧ w.candidate = q ∧ w.term = t

/-- The requests of its vote threads. -/
def Requested (b : AbstractState) (n : Int) (ts : List VoteThread) : Prop :=
  ∀ t ∈ ts, ∀ args ∈ t.args, ∃ q ∈ b.requests, q.candidate = n ∧ q.term = args.term ∧
    args.lastLogIndex = (q.log.length : Int) - 1 ∧ args.lastLogTerm = LeaderLog.lastTerm q.log

/-- The message behind the parameters a sender thread has sent. -/
structure Carries (ℓ : Level) (b : AbstractState) (t : AppendThread)
    (args : AppendEntriesParams) (m : LeaderLog.Message Int Command) : Prop where
  mem : m ∈ b.messages
  term : m.term = t.savedCurrentTerm
  argsTerm : args.term = t.savedCurrentTerm
  encodes : Encodes m.log t.nextIndex args
  sent : ℓ ≠ .matching → b.role m.sender = .leader → b.term m.sender = m.term →
    t.nextIndex ≤ m.log.length
  acked : ℓ ≠ .matching → t.nextIndex ≤ m.log.length → ∀ reply ∈ t.replies,
    reply.success = true → ⟨t.peer, m.term, m.log.length⟩ ∈ b.acks ∨ m.term < b.term m.sender
  commit : ℓ = .executing →
    t.nextIndex ≤ m.log.length ∧ (m.commit : Int) = args.leaderCommit + 1

/-- Its sender threads. -/
structure Sends (ℓ : Level) (b : AbstractState) (n : Int) (ts : List AppendThread)
    (raftThread : RaftThread) : Prop where
  message : ∀ t ∈ ts, ∀ args ∈ t.args, ∃ m, m.sender = n ∧ Carries ℓ b t args m
  unsent : ∀ t ∈ ts, t.args = none → t.replies = []
  thread : ℓ ≠ .matching → ∀ t ∈ ts, b.leader t.savedCurrentTerm = some n
  spawning : ℓ ≠ .matching → ∀ saved, raftThread = .spawning saved → b.leader saved = some n

/-- A leader's maps. -/
structure Leads (ℓ : Level) (b : AbstractState) (s : RaftState) (peers : IntMap Unit) : Prop where
  nextIndex : ℓ ≠ .matching → s.role = .leader → ∀ p, ∀ v ∈ s.nextIndex.lookup p,
    v ≤ s.logs.size
  matchIndex : ℓ ≠ .matching → s.role = .leader → ∀ p ∈ peers, ∃ v ∈ s.matchIndex.lookup p,
    0 ≤ v → ∃ j : ℕ, v + 1 ≤ j ∧ ⟨p, s.currentTerm, j⟩ ∈ b.acks

/-- A commit by a reply handler, in the state the handler leaves. -/
structure Commits (b : AbstractState) (s : RaftState) : Prop where
  pos : 0 ≤ s.commitIndex
  inside : s.commitIndex < s.logs.size
  leader : ∃ n, b.leader s.currentTerm = some n
  committed : (s.currentTerm, (s.commitIndex + 1).toNat) ∈ b.committed
  led : (abstractLog s.logs.items).take (s.commitIndex + 1).toNat <+: b.led s.currentTerm
  acked : ∃ A : Finset Int, A ⊆ s.clusterConfig.keys.toFinset ∧
    s.clusterConfig.size < 2 * A.card ∧
    ∀ v ∈ A, ∃ j, (s.commitIndex + 1).toNat ≤ j ∧ ⟨v, s.currentTerm, j⟩ ∈ b.acks

/-- The operation stands at the index in a committed log. -/
def Pushed (b : AbstractState) (i : Int) (op : RaftOp) : Prop :=
  ∃ t P, Certified b t P ∧ 0 ≤ i ∧ ∃ e, P[i.toNat]? = some e ∧ e.op = op.command

/-- What it has on record. -/
structure Recalls (ℓ : Level) (b : AbstractState) (n : Int) (hist : List Event) : Prop where
  elected : ∀ s, .becameLeader s ∈ hist →
    b.leader s.currentTerm = some n ∧ b.base s.currentTerm = abstractLog s.logs.items
  committed : ℓ ≠ .matching → ∀ s, .committed s ∈ hist → Commits b s
  pushedOut : ℓ = .executing → ∀ i op, .pushedOut i op ∈ hist → Pushed b i op

/-- Replica `x` as node `n`. -/
structure Stands (ℓ : Level) (b : AbstractState) (n : Int) (x : Replica) : Prop where
  mirrors : Mirrors ℓ b n x.state
  voted : Voted b n x.hist
  requested : Requested b n x.voteThreads
  sends : Sends ℓ b n x.appendThreads x.raftThread
  leads : Leads ℓ b x.state x.peers
  recalls : Recalls ℓ b n x.hist

/-- The simulation relation. -/
def Simulates (ℓ : Level) (c : Cluster) (b : AbstractState) : Prop :=
  ∀ n, Stands ℓ b n (c.node n)

section Preservation
variable {ℓ : Level} {b b' : AbstractState} {n r : Int} {s s' : RaftState} {x : Replica}
  {c : Cluster}

/-! What the abstract state keeps. -/

theorem Mirrors.elsewhere (m : Mirrors ℓ b n s) (e : Elsewhere r b b') (h : n ≠ r) :
    Mirrors ℓ b' n s where
  term := (e.term n h).trans m.term
  role := (e.role n h).trans m.role
  alive := m.alive
  log := (e.log n h).trans m.log
  commit hl := by rw [e.commit n h]; exact m.commit hl

theorem Voted.elsewhere {hist : List Event} (v : Voted b n hist) (e : Elsewhere r b b')
    (h : n ≠ r) : Voted b' n hist := by
  intro q t
  rw [v q t]
  constructor
  · rintro ⟨w, hw, rfl, facts⟩
    exact ⟨w, (e.votes w h).mpr hw, rfl, facts⟩
  · rintro ⟨w, hw, rfl, facts⟩
    exact ⟨w, (e.votes w h).mp hw, rfl, facts⟩

theorem Requested.evolve {ts : List VoteThread} (rq : Requested b n ts) (e : Evolves b b') :
    Requested b' n ts := by
  intro t ht args ha
  obtain ⟨q, hq, facts⟩ := rq t ht args ha
  exact ⟨q, e.requests hq, facts⟩

theorem Carries.evolve {t : AppendThread} {args : AppendEntriesParams}
    {m : LeaderLog.Message Int Command} (k : Carries ℓ b t args m) (e : Evolves b b')
    (leader : ℓ ≠ .matching → b.leader m.term = some m.sender) : Carries ℓ b' t args m where
  mem := e.messages k.mem
  term := k.term
  argsTerm := k.argsTerm
  encodes := k.encodes
  sent hl role term :=
    have still := e.leads _ _ (leader hl) role term
    k.sent hl still.1 still.2
  acked hl le reply hr ok :=
    (k.acked hl le reply hr ok).imp (fun h => e.acks h) fun h => h.trans_le (e.term _)
  commit := k.commit

theorem Sends.evolve {ts : List AppendThread} {pc : RaftThread} (sd : Sends ℓ b n ts pc)
    (e : Evolves b b') : Sends ℓ b' n ts pc where
  message t ht args ha := by
    obtain ⟨m, rfl, k⟩ := sd.message t ht args ha
    exact ⟨m, rfl, k.evolve e fun hl => k.term ▸ sd.thread hl t ht⟩
  unsent := sd.unsent
  thread hl t ht := e.leader _ _ (sd.thread hl t ht)
  spawning hl saved h := e.leader _ _ (sd.spawning hl saved h)

theorem Leads.evolve {peers : IntMap Unit} (l : Leads ℓ b s peers) (e : Evolves b b') :
    Leads ℓ b' s peers where
  nextIndex := l.nextIndex
  matchIndex hl role p hp := by
    obtain ⟨v, hv, acked⟩ := l.matchIndex hl role p hp
    refine ⟨v, hv, fun pos => ?_⟩
    obtain ⟨j, hj, ha⟩ := acked pos
    exact ⟨j, hj, e.acks ha⟩

theorem Commits.evolve (k : Commits b s) (e : Evolves b b') : Commits b' s where
  pos := k.pos
  inside := k.inside
  leader := k.leader.imp fun n h => e.leader _ n h
  committed := e.committed k.committed
  led := by
    obtain ⟨n, h⟩ := k.leader
    exact k.led.trans (e.led _ n h)
  acked := by
    obtain ⟨A, sub, most, acked⟩ := k.acked
    refine ⟨A, sub, most, fun v hv => ?_⟩
    obtain ⟨j, hj, ha⟩ := acked v hv
    exact ⟨j, hj, e.acks ha⟩

theorem Recalls.evolve {hist : List Event} (rc : Recalls ℓ b n hist) (e : Evolves b b') :
    Recalls ℓ b' n hist where
  elected s h := by
    obtain ⟨leader, base⟩ := rc.elected s h
    exact ⟨e.leader _ _ leader, (e.base _ _ leader).trans base⟩
  committed hl s h := (rc.committed hl s h).evolve e
  pushedOut hl i op h := by
    obtain ⟨t, P, certified, facts⟩ := rc.pushedOut hl i op h
    exact ⟨t, P, e.certified t P certified, facts⟩

theorem Stands.elsewhere (st : Stands ℓ b n x) (e : Evolves b b') (el : Elsewhere r b b')
    (h : n ≠ r) : Stands ℓ b' n x where
  mirrors := st.mirrors.elsewhere el h
  voted := st.voted.elsewhere el h
  requested := st.requested.evolve e
  sends := st.sends.evolve e
  leads := st.leads.evolve e
  recalls := st.recalls.evolve e

theorem Simulates.set (sim : Simulates ℓ c b) (e : Evolves b b') (el : Elsewhere r b b')
    (st : Stands ℓ b' r x) : Simulates ℓ (c.set r x) b' :=
  fun n => Cluster.set_cases (fun here => here ▸ st) ((sim n).elsewhere e el)

/-- A step the abstract state does not notice. -/
theorem Simulates.setSame (sim : Simulates ℓ c b) (st : Stands ℓ b r x) :
    Simulates ℓ (c.set r x) b :=
  sim.set (.refl b) (.refl r b) st

/-! What changes inside a replica leave as it is. -/

theorem Requested.modify {ts : List VoteThread} {k : Nat} {f : VoteThread → VoteThread}
    (rq : Requested b n ts) (same : ∀ t, (f t).args = t.args) :
    Requested b n (ts.modify k f) := by
  intro t ht args ha
  rcases List.mem_or_eq_of_mem_modify ht with ht | ⟨u, hu, rfl⟩
  · exact rq t ht args ha
  · exact rq u (List.mem_of_getElem? hu) args (same u ▸ ha)

theorem Sends.finish {ts : List AppendThread} {pc : RaftThread} {k : Nat}
    (sd : Sends ℓ b n ts pc) :
    Sends ℓ b n (ts.modify k fun t => { t with finished := true }) pc where
  message t ht args ha := by
    rcases List.mem_or_eq_of_mem_modify ht with ht | ⟨u, hu, rfl⟩
    · exact sd.message t ht args ha
    · obtain ⟨m, sender, carries⟩ := sd.message u (List.mem_of_getElem? hu) args ha
      exact ⟨m, sender, { carries with }⟩
  unsent t ht := by
    rcases List.mem_or_eq_of_mem_modify ht with ht | ⟨u, hu, rfl⟩
    · exact sd.unsent t ht
    · exact sd.unsent u (List.mem_of_getElem? hu)
  thread hl t ht := by
    rcases List.mem_or_eq_of_mem_modify ht with ht | ⟨u, hu, rfl⟩
    · exact sd.thread hl t ht
    · exact sd.thread hl u (List.mem_of_getElem? hu)
  spawning := sd.spawning

theorem Sends.atThread {ts : List AppendThread} {pc pc' : RaftThread} (sd : Sends ℓ b n ts pc)
    (h : ∀ saved, pc' = .spawning saved → ℓ ≠ .matching → b.leader saved = some n) :
    Sends ℓ b n ts pc' :=
  { sd with spawning := fun hl saved e => h saved e hl }

theorem Voted.keeps {y : Replica} (v : Voted b n x.hist) (k : Replica.Keeps x y) :
    Voted b n y.hist :=
  fun q t => k.voted.trans (v q t)

/-- Followers and candidates have no maps to keep. -/
theorem Leads.of_role {peers : IntMap Unit} (h : s.role ≠ .leader) : Leads ℓ b s peers where
  nextIndex _ role := absurd role h
  matchIndex _ role := absurd role h

theorem Leads.congr {peers : IntMap Unit} (l : Leads ℓ b s peers) (role : s'.role = s.role)
    (term : s'.currentTerm = s.currentTerm) (logs : s.logs.size ≤ s'.logs.size)
    (nextIndex : s'.nextIndex = s.nextIndex) (matchIndex : s'.matchIndex = s.matchIndex) :
    Leads ℓ b s' peers where
  nextIndex hl h p v hv :=
    (l.nextIndex hl (role ▸ h) p v (nextIndex ▸ hv)).trans logs
  matchIndex hl h p hp := by
    rw [term, matchIndex]
    exact l.matchIndex hl (role ▸ h) p hp

theorem mem_notes {ms hist : List Event} {e : Event} (notes : ∀ e ∈ ms, e.isNote = true)
    (h : e.isNote = false) : e ∈ ms ++ hist ↔ e ∈ hist := by
  rw [List.mem_append, or_iff_right]
  intro mem
  rw [notes e mem] at h
  cases h

theorem Voted.notes {ms hist : List Event} (v : Voted b n hist)
    (notes : ∀ e ∈ ms, e.isNote = true) : Voted b n (ms ++ hist) :=
  fun q t => (mem_notes notes rfl).trans (v q t)

/-- Votes and notes say nothing about leaderships and commits, and operations that
are pushed out are committed ones. -/
theorem Recalls.extend {hist hist' : List Event} (rc : Recalls ℓ b n hist)
    (new : ∀ e ∈ hist', e ∈ hist ∨ e.isNote = true ∨ (∃ q t, e = .voted q t) ∨
      ∃ i op, e = .pushedOut i op ∧ (ℓ = .executing → Pushed b i op)) :
    Recalls ℓ b n hist' where
  elected s h := by
    rcases new _ h with h | h | ⟨_, _, h⟩ | ⟨_, _, h, _⟩
    · exact rc.elected s h
    all_goals cases h
  committed hl s h := by
    rcases new _ h with h | h | ⟨_, _, h⟩ | ⟨_, _, h, _⟩
    · exact rc.committed hl s h
    all_goals cases h
  pushedOut hl i op h := by
    rcases new _ h with h | h | ⟨_, _, h⟩ | ⟨_, _, h, pushed⟩
    · exact rc.pushedOut hl i op h
    · cases h
    · cases h
    · cases h
      exact pushed hl

theorem Recalls.notes {ms hist : List Event} (rc : Recalls ℓ b n hist)
    (notes : ∀ e ∈ ms, e.isNote = true) : Recalls ℓ b n (ms ++ hist) :=
  rc.extend fun e h => (List.mem_append.mp h).symm.imp_right fun h => Or.inl (notes e h)

theorem Recalls.vote {hist : List Event} (rc : Recalls ℓ b n hist) (q t : Int) :
    Recalls ℓ b n (.voted q t :: hist) :=
  rc.extend fun _ h => (List.mem_cons.mp h).symm.imp_right fun h => Or.inr (Or.inl ⟨q, t, h⟩)

/-- What a replica takes for committed is committed. -/
theorem Mirrors.pushed (m : Mirrors ℓ b n s) (hl : ℓ = .executing) (agreed : Agreed b) {i : Int}
    {op : RaftOp} (pos : 0 ≤ i) (le : i ≤ s.commitIndex)
    (entry : ∃ e, s.logs.items[i.toNat]? = some e ∧ e.op = op) : Pushed b i op := by
  obtain ⟨e, he, rfl⟩ := entry
  have commit := m.commit hl
  refine ⟨_, _, agreed.commit n, pos, ⟨e.term, e.op.command⟩, ?_, rfl⟩
  rw [List.getElem?_take_of_lt (by omega), m.log, abstractLog_getElem?, he]
  rfl

end Preservation

/-- A freshly launched cluster stands for the initial state. -/
theorem Simulates.fixed (ℓ : Level) (config : IntMap ServerInfo) :
    Simulates ℓ (Cluster.fixed config) .init := by
  intro n
  have f := Replica.initialise_fresh n config
  change Stands ℓ .init n (Replica.initialise n config)
  generalize Replica.initialise n config = x at f
  constructor
  case mirrors =>
    constructor
    case term => exact f.term.symm
    case role => rw [f.role]; rfl
    case alive => rw [f.role]; decide
    case log => rw [f.logs]; rfl
    case commit => rw [f.commitIndex]; exact fun _ => rfl
  case voted => rw [f.hist]; simp [Voted, LeaderLog.State.init]
  case requested => rw [f.voteThreads]; exact fun _ h => absurd h List.not_mem_nil
  case sends =>
    rw [f.appendThreads, f.raftThread]
    exact ⟨fun _ h => absurd h List.not_mem_nil, fun _ h => absurd h List.not_mem_nil,
      fun _ _ h => absurd h List.not_mem_nil, fun _ _ h => by cases h⟩
  case leads => exact .of_role (by rw [f.role]; decide)
  case recalls =>
    rw [f.hist]
    exact ⟨fun _ h => absurd h List.not_mem_nil, fun _ _ h => absurd h List.not_mem_nil,
      fun _ _ _ h => absurd h List.not_mem_nil⟩

end OhMyDb
